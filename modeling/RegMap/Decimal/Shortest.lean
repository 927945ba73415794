import RegMap.Decimal.Binary64

/-!
# Shortest decimals

A finite number is written with the fewest digits that are read back as the same
number. The decimals with a given last place form a grid; the first grid, from
coarse to fine, with a point in the interval of values that round to the number
gives the digits. Of two such points the nearer one is taken.
-/

namespace RegMap

/-- The decimal `digits * 10 ^ exponent`. -/
structure Decimal where
  digits : Nat
  exponent : Int

namespace Decimal

/-- The values that round to a number, in units of a fraction of `step`. The ends
belong to it if `closed`. -/
structure Interval where
  lower : Nat
  value : Nat
  upper : Nat
  closed : Bool

/-- The interval of a positive number, in quarters of its unit. Below a power of
two the numbers are twice as near. -/
def Interval.of (significand doublings : Nat) : Interval :=
  let quarter := 1 <<< doublings
  let value := 4 * significand * quarter
  let isPower := significand = 1 <<< (Binary64.precision - 1) && doublings > 0
  ⟨value - (if isPower then quarter else 2 * quarter), value, value + 2 * quarter,
    significand % 2 = 0⟩

/-- Whether a value belongs to the interval. -/
def Interval.holds (interval : Interval) (value : Nat) : Bool :=
  if interval.closed then interval.lower ≤ value && value ≤ interval.upper
  else interval.lower < value && value < interval.upper

/-- The interval in units that are some times smaller. -/
def Interval.refine (interval : Interval) (times : Nat) : Interval :=
  ⟨interval.lower * times, interval.value * times, interval.upper * times, interval.closed⟩

/-- The point of a grid of multiples of `step` that is in an interval, and
nearest to its value. -/
def Interval.gridPoint? (interval : Interval) (step : Nat) : Option Nat :=
  let below := interval.value / step
  let rounded := roundQuotient interval.value step
  let other := if rounded = below then below + 1 else below
  [rounded, other].find? fun point => interval.holds (point * step)

/-- The decimal with a given last place that is read back as the number. -/
def decimalAt? (interval : Interval) (exponent : Int) : Option Decimal :=
  let step := Nat.pow 10 exponent.toNat <<< (Binary64.unitDoublings + 2)
  ((interval.refine (Nat.pow 10 (-exponent).toNat)).gridPoint? step).map (⟨·, exponent⟩)

/-- The greatest last place that a number can need. -/
def coarsestPlace : Int := 308

/-- How many last places there are, from that one down to the least. -/
def placeCount : Nat := 650

/-- The decimal with the fewest digits that is read back as a positive number. -/
def shortest (significand doublings : Nat) : Decimal :=
  let interval := Interval.of significand doublings
  ((List.range placeCount).findSome? fun (place : Nat) =>
    decimalAt? interval (coarsestPlace - place)).getD ⟨significand, 0⟩

end Decimal

end RegMap
