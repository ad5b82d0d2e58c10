import ExprCode.Number.Binary

/-! # Shortest decimals

The decimal with the fewest significant digits that reads back as a given binary number; of those,
the one nearest to the number, and of two equally near the larger. A number `significand * 2 ^
exponent` and the ends of the interval of reals that round to it are integers on one common
power-of-ten scale, so the search is exact: grids of `1, 2, …` digits are tried in turn, each at the
number's two neighbours. -/

namespace ExprCode

/-- The decimal number `digits * 10 ^ exponent`. -/
structure Decimal where
  /-- The significant digits, read as one number. -/
  digits : Nat
  /-- The power of ten of the last digit. -/
  exponent : Int
  deriving DecidableEq

namespace Decimal

/-- A positive binary number with the interval of reals that round to it, in integers counting
`10 ^ exponent`. -/
structure Interval where
  /-- The number itself. -/
  value : Nat
  /-- Lower end. -/
  low : Nat
  /-- Upper end. -/
  high : Nat
  /-- Whether the ends themselves round to the number. -/
  closed : Bool
  /-- The power of ten counted. -/
  exponent : Int

namespace Interval

/-- The interval around `significand * 2 ^ exponent`. In quarters of the last place it reaches two
up and two down, or one down where the next smaller number lies at half the distance; the ends
belong to it if the significand is even. -/
def ofBinary (format : FloatFormat) (significand : Nat) (exponent : Int) : Interval :=
  let narrow := significand = Nat.pow 2 (format.precision - 1) ∧ format.minExponent < exponent
  let quarterExponent := exponent - 2
  let scale : Nat :=
    if 0 ≤ quarterExponent then Nat.pow 2 quarterExponent.toNat
    else Nat.pow 5 (-quarterExponent).toNat
  { value := 4 * significand * scale
    low := (4 * significand - if narrow then 1 else 2) * scale
    high := (4 * significand + 2) * scale
    closed := significand % 2 = 0
    exponent := min 0 quarterExponent }

/-- Whether a point of the scale rounds to the number. -/
def contains (interval : Interval) (point : Nat) : Bool :=
  if interval.closed then interval.low ≤ point && point ≤ interval.high
  else interval.low < point && point < interval.high

/-- The point of a grid that lies in the interval and is nearest to the number; of two equally near,
the upper one. Only the number's two neighbours on the grid have to be looked at. -/
def nearestOn? (interval : Interval) (grid : Nat) : Option Nat :=
  let below := interval.value / grid
  let fromBelow := interval.value - below * grid
  let fromAbove := (below + 1) * grid - interval.value
  let hitBelow := interval.contains (below * grid)
  let hitAbove := interval.contains ((below + 1) * grid)
  if hitAbove && (!hitBelow || fromAbove ≤ fromBelow) then some (below + 1)
  else if hitBelow then some below
  else none

/-- Number of decimal digits of the number's count. -/
def width (interval : Interval) : Nat := (Nat.toDigits 10 interval.value).length

/-- The decimal of an interval: the coarsest grid that has a point in it. -/
def shortest (interval : Interval) : Decimal :=
  let found := (List.range interval.width).findSome? fun cut =>
    let places := interval.width - (cut + 1)
    (interval.nearestOn? (Nat.pow 10 places)).map fun point =>
      Decimal.mk point (interval.exponent + places)
  found.getD ⟨interval.value, interval.exponent⟩

end Interval

/-- The shortest decimal of a positive binary number. -/
def ofBinary (format : FloatFormat) (significand : Nat) (exponent : Int) : Decimal :=
  (Interval.ofBinary format significand exponent).shortest

end Decimal

end ExprCode
