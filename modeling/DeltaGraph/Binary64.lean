/-!
# Binary floating-point numbers

A binary64 number is its 64 bits: a sign, eleven bits of exponent and
fifty-two bits of fraction.  Comparison and rounding are defined on the bits
in integer arithmetic, so that both can be evaluated and reasoned about.
-/

namespace DeltaGraph

/-- A floating-point number of 64 bits. -/
structure Binary64 where
  bits : UInt64
  deriving DecidableEq

namespace Binary64

/-- The bits of the positive infinity, which exceed those of every finite
magnitude. -/
def infinityBits : Nat := 0x7ff0000000000000

/-- The value of the sign bit. -/
def signUnit : Nat := 0x8000000000000000

/-- The value of the lowest exponent bit, which is the significand of a power
of two. -/
def exponentUnit : Nat := 0x10000000000000

/-- Whether the sign bit is set. -/
def isNegative (number : Binary64) : Bool :=
  signUnit ≤ number.bits.toNat

/-- The bits without the sign.  Magnitudes are ordered as their bits are. -/
def magnitude (number : Binary64) : Nat :=
  number.bits.toNat % signUnit

/-- Whether the bits denote no number. -/
def isNaN (number : Binary64) : Bool :=
  infinityBits < number.magnitude

/-- Whether the number is one of the two infinities. -/
def isInfinite (number : Binary64) : Bool :=
  number.magnitude = infinityBits

/-- The place of a number in the order of numbers.  Both zeros have the
place 0. -/
def place (number : Binary64) : Int :=
  if number.isNegative then -(number.magnitude : Int) else number.magnitude

/-- The order of two numbers; nothing compares with a NaN. -/
def compare? (left right : Binary64) : Option Ordering :=
  if left.isNaN || right.isNaN then none
  else some (compare left.place right.place)

/-- Equality of numbers: the zeros are equal and a NaN equals nothing. -/
def equals (left right : Binary64) : Bool :=
  left.compare? right == some .eq

/-- The integral significand and the power of two whose product is a finite
magnitude. -/
def significand (number : Binary64) : Nat × Int :=
  let exponent : Nat := number.magnitude / exponentUnit
  let fraction : Nat := number.magnitude % exponentUnit
  if exponent = 0 then (fraction, -1074)
  else (fraction + exponentUnit, (exponent : Int) - 1075)

/-- The quotient rounded to the nearest integer, a half to the even one. -/
def roundedQuotient (numerator denominator : Nat) : Nat :=
  let quotient := numerator / denominator
  let twiceRest := 2 * (numerator % denominator)
  if twiceRest < denominator then quotient
  else if denominator < twiceRest then quotient + 1
  else quotient + quotient % 2

/-- The magnitude nearest to a quotient of natural numbers, a tie going to the
even significand and an overflow to infinity. -/
def nearestMagnitude (numerator denominator : Nat) : Nat :=
  if numerator = 0 then 0
  else
    let scale : Int := (numerator.log2 : Int) - denominator.log2
    let belowScale :=
      if 0 ≤ scale then numerator < denominator <<< scale.toNat
      else numerator <<< (-scale).toNat < denominator
    let power : Int :=
      max (if belowScale then scale - 53 else scale - 52) (-1074)
    let rounded :=
      if 0 ≤ power then roundedQuotient numerator (denominator <<< power.toNat)
      else roundedQuotient (numerator <<< (-power).toNat) denominator
    min infinityBits ((power + 1074).toNat * exponentUnit + rounded)

/-- The number nearest to a quotient of natural numbers. -/
def ofRatio (numerator denominator : Nat) : Binary64 :=
  ⟨UInt64.ofNat (nearestMagnitude numerator denominator)⟩

/-- The number nearest to an integer. -/
def ofInt (value : Int) : Binary64 :=
  if value < 0 then ⟨UInt64.ofNat (signUnit + nearestMagnitude value.natAbs 1)⟩
  else ofRatio value.natAbs 1

/-- The positive zero. -/
def zero : Binary64 := ⟨0⟩

end Binary64

end DeltaGraph
