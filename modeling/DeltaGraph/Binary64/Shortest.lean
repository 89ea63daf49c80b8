import DeltaGraph.Binary64

/-!
# Shortest decimals

The shortest decimal of a floating-point number is the one with the fewest
digits among the decimals that read back as the number.  All arithmetic is on
natural numbers: the reals that round to the number form an interval, and on
the grid of decimals with one digit, then two, and so on, the two neighbours of
the number are tried until one of them lies in that interval.
-/

namespace DeltaGraph

/-- The decimal number `digits * 10 ^ exponent`. -/
structure Decimal where
  digits : Nat
  exponent : Int
  deriving DecidableEq, Repr

namespace Binary64

/-- The reals that round to a positive number, as quotients by one common
denominator.  The ends belong to the interval when it is closed. -/
structure RoundingInterval where
  low : Nat
  value : Nat
  high : Nat
  denominator : Nat
  closed : Bool

/-- Half the distance to each neighbour rounds to the number; below a power of
two the neighbour is half as far. -/
def roundingInterval (number : Binary64) : RoundingInterval :=
  let (significand, power) := number.significand
  let lowGap := if significand = exponentUnit ∧ -1074 < power then 1 else 2
  let factor := 1 <<< (power - 2).toNat
  { low := (4 * significand - lowGap) * factor
    value := 4 * significand * factor
    high := (4 * significand + 2) * factor
    denominator := 1 <<< (2 - power).toNat
    closed := significand % 2 = 0 }

/-- The number of decimal digits of a natural number. -/
def digitCount (value : Nat) : Nat :=
  (Nat.toDigits 10 value).length

namespace RoundingInterval

/-- The least `k` for which the value lies below `10 ^ k`. -/
def scale (interval : RoundingInterval) : Int :=
  if interval.denominator ≤ interval.value then
    digitCount (interval.value / interval.denominator)
  else
    1 - (digitCount ((interval.denominator - 1) / interval.value) : Int)

/-- Whether a decimal lies in the interval. -/
def contains (interval : RoundingInterval) (decimal : Decimal) : Bool :=
  let point :=
    decimal.digits * Nat.pow 10 decimal.exponent.toNat * interval.denominator
  let unit := Nat.pow 10 (-decimal.exponent).toNat
  if interval.closed then
    interval.low * unit ≤ point ∧ point ≤ interval.high * unit
  else
    interval.low * unit < point ∧ point < interval.high * unit

/-- The multiple of `10 ^ exponent` at or below the value. -/
def floorOn (interval : RoundingInterval) (exponent : Int) : Decimal :=
  let numerator := interval.value * Nat.pow 10 (-exponent).toNat
  let denominator := interval.denominator * Nat.pow 10 exponent.toNat
  ⟨numerator / denominator, exponent⟩

/-- Whether the next multiple of `10 ^ exponent` above the value is at least
as near as the one below. -/
def nearerAbove (interval : RoundingInterval) (exponent : Int) : Bool :=
  let numerator := interval.value * Nat.pow 10 (-exponent).toNat
  let denominator := interval.denominator * Nat.pow 10 exponent.toNat
  denominator ≤ 2 * (numerator % denominator)

/-- The neighbour of the value on a decimal grid that lies in the interval; of
two the nearer, and the upper one when both are equally near. -/
def neighbourOn?
    (interval : RoundingInterval)
    (exponent : Int) : Option Decimal :=
  let below := interval.floorOn exponent
  let above : Decimal := ⟨below.digits + 1, exponent⟩
  match interval.contains below, interval.contains above with
  | true, true => some (if interval.nearerAbove exponent then above else below)
  | true, false => some below
  | false, true => some above
  | false, false => none

end RoundingInterval

/-- The shortest decimal of a positive finite number.  Seventeen digits always
suffice. -/
def shortest (number : Binary64) : Decimal :=
  let interval := number.roundingInterval
  let scale := interval.scale
  let grids := (List.range 17).map fun (count : Nat) => scale - 1 - count
  match grids.findSome? interval.neighbourOn? with
  | some decimal => decimal
  | none => interval.floorOn (scale - 17)

end Binary64

end DeltaGraph
