/-!
# Binary floating-point numbers of 64 bits

A finite number is kept as an integer significand and how often it is doubled,
in units of the least positive number, `2 ^ -1074`. A decimal is rounded to the
nearest number; of two equally near ones the one with the even significand is
taken.
-/

namespace RegMap.Decimal

/-- A floating-point number. The value of a finite one is
`significand * 2 ^ doublings` units. -/
inductive Binary64 where
  | finite (negative : Bool) (significand doublings : Nat)
  | infinite (negative : Bool)
  | nan
deriving DecidableEq

/-- The quotient rounded to the nearest integer, and to the even one of two. -/
def roundQuotient (numerator denominator : Nat) : Nat :=
  let quotient := numerator / denominator
  let twice := 2 * (numerator % denominator)
  if twice < denominator then quotient
  else if denominator < twice then quotient + 1
  else quotient + quotient % 2

namespace Binary64

/-- How many bits a significand has at most. -/
def precision : Nat := 53

/-- How often significands can be doubled. -/
def maxDoublings : Nat := 2045

/-- How often the unit has to be doubled to become one. -/
def unitDoublings : Nat := 1074

/-- The finite number with a significand that may be one bit too long, or else an
infinite one. -/
def ofSignificand (negative : Bool) (significand doublings : Nat) : Binary64 :=
  let (significand, doublings) :=
    if significand = 1 <<< precision then (1 <<< (precision - 1), doublings + 1)
    else (significand, doublings)
  if doublings > maxDoublings then infinite negative else finite negative significand doublings

/-- The number nearest to a quotient. -/
def ofQuotient (negative : Bool) (numerator denominator : Nat) : Binary64 :=
  let units := numerator <<< unitDoublings
  let doublings := Nat.log2 (units / denominator) + 1 - precision
  ofSignificand negative (roundQuotient units (denominator <<< doublings)) doublings

/-- The number nearest to `digits * 10 ^ exponent`. Very large and very small
decimals are known by the place of their first digit. -/
def ofDecimal (negative : Bool) (digits : Nat) (exponent : Int) : Binary64 :=
  let places := exponent + (Nat.toDigits 10 digits).length
  if digits = 0 then finite negative 0 0
  else if places > 310 then infinite negative
  else if places < -330 then finite negative 0 0
  else ofQuotient negative (digits * Nat.pow 10 exponent.toNat) (Nat.pow 10 (-exponent).toNat)

/-- Whether two numbers are taken to be the same: not told by the sign of zero. -/
def same : Binary64 → Binary64 → Bool
  | finite _ 0 _, finite _ 0 _ => true
  | a, b => a = b

end Binary64

end RegMap.Decimal
