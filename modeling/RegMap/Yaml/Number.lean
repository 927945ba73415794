import RegMap.Decimal.Shortest
import RegMap.Text.Numeral

/-!
# Numbers

Plain scalars may be integers, in decimal or with a mark for another base, or
floating-point numbers. Integers are read exactly; those that no 64-bit word can
hold are refused or, when they are larger still, read as floating-point numbers.
-/

namespace RegMap.Yaml

open Decimal (Binary64)

/-- A number. -/
inductive Number where
  | integer (value : Int)
  | float (value : Binary64)

namespace Number

/-! ## Reading -/

/-- Zeros before other digits make a text that is no number. -/
def hasLeadingZero : List Char → Bool
  | '0' :: rest => !rest.isEmpty && rest.all Char.isDigit
  | _ => false

/-- The natural number that a text without a sign stands for. -/
def natural? (text : List Char) : Option Nat :=
  match text with
  | '0' :: 'x' :: digits => Text.numeral? 16 digits
  | '0' :: 'o' :: digits => Text.numeral? 8 digits
  | '0' :: 'b' :: digits => Text.numeral? 2 digits
  | digits => if hasLeadingZero digits then none else Text.numeral? 10 digits

/-- The integer that a text stands for. -/
def integer? : List Char → Option Int
  | '-' :: text => (natural? text).map fun n => -(n : Int)
  | '+' :: text => (natural? text).map Int.ofNat
  | text => (natural? text).map Int.ofNat

/-- Whether an integer fits so many bits, with or without a sign. -/
def fits (bits : Nat) (value : Int) : Bool :=
  -(Nat.pow 2 (bits - 1) : Int) ≤ value && value < Nat.pow 2 bits

/-- Whether an integer fits a word of 64 bits. -/
def fitsWord (value : Int) : Bool :=
  fits 64 value

/-- Whether an integer fits two words. -/
def fitsTwoWords (value : Int) : Bool :=
  fits 128 value

/-- Whether an integer fits a word with a sign. -/
def fitsSigned (value : Int) : Bool :=
  fitsWord value && value < Nat.pow 2 63

/-- The exponent of ten at the end of a decimal, if it is well formed. -/
def exponent? : List Char → Option Int
  | [] => some 0
  | mark :: rest =>
    if mark = 'e' || mark = 'E' then
      match rest with
      | '-' :: digits => (Text.numeral? 10 digits).map fun n => -(n : Int)
      | '+' :: digits => (Text.numeral? 10 digits).map Int.ofNat
      | digits => (Text.numeral? 10 digits).map Int.ofNat
    else
      none

/-- The number that a decimal without a sign stands for. There is a digit before
or after the point. -/
def decimal? (negative : Bool) (text : List Char) : Option Binary64 :=
  let whole := text.takeWhile Char.isDigit
  let (fraction, rest) :=
    match text.dropWhile Char.isDigit with
    | '.' :: rest => (rest.takeWhile Char.isDigit, rest.dropWhile Char.isDigit)
    | rest => ([], rest)
  match Text.numeral? 10 (whole ++ fraction), exponent? rest with
  | some digits, some exponent =>
    some (.ofDecimal negative digits (exponent - fraction.length))
  | _, _ => none

/-- The spellings of infinity, after a sign. -/
def isInfinity (text : List Char) : Bool :=
  [".inf", ".Inf", ".INF"].contains (String.ofList text)

/-- The spellings of what is no number. They have no sign. -/
def isNan (text : List Char) : Bool :=
  [".nan", ".NaN", ".NAN"].contains (String.ofList text)

/-- A decimal that is not too large. -/
def finite? (negative : Bool) (text : List Char) : Option Binary64 :=
  (decimal? negative text).filter fun
    | .finite .. => true
    | _ => false

/-- The floating-point number that a text stands for. A decimal that is too large
for one stands for none. -/
def float? : List Char → Option Binary64
  | '+' :: text => if isInfinity text then some (.infinite false) else finite? false text
  | '-' :: text => if isInfinity text then some (.infinite true) else finite? true text
  | text =>
    if isInfinity text then some (.infinite false)
    else if isNan text then some .nan
    else finite? false text

/-! ## Writing -/

/-- Decimals with at most so many places before the point are written without an
exponent. -/
def positionalPlaces : Int := 16

/-- So do decimals with fewer zeros than this after the point. -/
def positionalZeros : Int := 5

/-- A decimal. It has a digit after the point unless it has an exponent. -/
def decimalText (decimal : Decimal) : String :=
  let digits := Nat.toDigits 10 decimal.digits
  let places := decimal.exponent + digits.length
  let zeros (count : Int) := List.replicate count.toNat '0'
  if 0 ≤ decimal.exponent ∧ places ≤ positionalPlaces then
    String.ofList (digits ++ zeros decimal.exponent) ++ ".0"
  else if 0 < places ∧ places ≤ positionalPlaces then
    String.ofList (digits.take places.toNat ++ '.' :: digits.drop places.toNat)
  else if -positionalZeros < places ∧ places ≤ 0 then
    "0." ++ String.ofList (zeros (-places) ++ digits)
  else
    let point := if digits.length > 1 then ['.'] else []
    String.ofList (digits.take 1 ++ point ++ digits.drop 1) ++ s!"e{places - 1}"

/-- The sign of a number, which only negative ones have. -/
def sign (negative : Bool) : String :=
  if negative then "-" else ""

/-- A floating-point number as a text that reads back as it. -/
def floatText : Binary64 → String
  | .nan => ".nan"
  | .infinite negative => sign negative ++ ".inf"
  | .finite negative 0 _ => sign negative ++ "0.0"
  | .finite negative significand doublings =>
    sign negative ++ decimalText (Decimal.shortest significand doublings)

/-- The number as it is written. -/
def text : Number → String
  | integer value => toString value
  | float value => floatText value

/-- Whether two numbers are taken to be the same. An integer is no float. -/
def same : Number → Number → Bool
  | integer a, integer b => a = b
  | float a, float b => a.same b
  | _, _ => false

end Number

end RegMap.Yaml
