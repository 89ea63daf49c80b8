import DeltaGraph.Proofs.Value
import Mathlib.Algebra.Group.Nat.Defs
import Mathlib.Order.MinMax

/-!
# Integers as floating-point numbers

Rounding an integer to the nearest floating-point number keeps the order of the
integers.  Up to a magnitude of two to the fifty-third it is exact; beyond,
different integers may be rounded to one number.
-/

namespace DeltaGraph

namespace Binary64

/-! ## Rounded quotients -/

theorem roundedQuotient_cases (numerator denominator : Nat) :
    (roundedQuotient numerator denominator = numerator / denominator ∧
        2 * (numerator % denominator) ≤ denominator) ∨
      (roundedQuotient numerator denominator = numerator / denominator + 1 ∧
        denominator ≤ 2 * (numerator % denominator)) := by
  unfold roundedQuotient
  dsimp only
  split
  · exact .inl ⟨rfl, by omega⟩
  · split
    · exact .inr ⟨rfl, by omega⟩
    · rcases Nat.mod_two_eq_zero_or_one (numerator / denominator)
        with even | odd
      · exact .inl ⟨by omega, by omega⟩
      · exact .inr ⟨by omega, by omega⟩

/-- A quotient without rest needs no rounding. -/
theorem roundedQuotient_mul
    (quotient : Nat)
    {denominator : Nat}
    (positive : 0 < denominator) :
    roundedQuotient (quotient * denominator) denominator = quotient := by
  simp [roundedQuotient, Nat.mul_div_cancel _ positive, positive]

@[simp] theorem roundedQuotient_one (number : Nat) :
    roundedQuotient number 1 = number := by
  simpa using roundedQuotient_mul number Nat.one_pos

theorem roundedQuotient_mono {small large : Nat} (ordered : small ≤ large)
    (denominator : Nat) :
    roundedQuotient small denominator ≤ roundedQuotient large denominator := by
  have quotients : small / denominator ≤ large / denominator :=
    Nat.div_le_div_right ordered
  have smallCases := roundedQuotient_cases small denominator
  have largeCases := roundedQuotient_cases large denominator
  rcases Nat.lt_or_eq_of_le quotients with below | same
  · omega
  -- With one quotient the remainders are ordered as the numerators are.
  have smallParts := Nat.div_add_mod small denominator
  have largeParts := Nat.div_add_mod large denominator
  rw [same] at smallParts smallCases
  rcases smallCases with ⟨down, _⟩ | ⟨up, atLeastHalf⟩
  · omega
  rcases largeCases with ⟨down, atMostHalf⟩ | ⟨alsoUp, _⟩
  · -- Then both lie in the middle, and are the same.
    have equal : small = large := by omega
    rw [equal]
  · omega

/-! ## The magnitude of a natural number -/

/-- The significand of a positive natural number, with the power of two that a
number of 53 bits leaves. -/
def leadingBits (number : Nat) : Nat :=
  if 52 ≤ number.log2 then roundedQuotient number (2 ^ (number.log2 - 52))
  else number * 2 ^ (52 - number.log2)

theorem nearestMagnitude_one {number : Nat} (positive : number ≠ 0) :
    nearestMagnitude number 1 =
      min infinityBits
        ((number.log2 + 1022) * exponentUnit + leadingBits number) := by
  have notBelow : ¬ number < 2 ^ number.log2 :=
    Nat.not_lt.mpr (Nat.log2_self_le positive)
  have one : Nat.log2 1 = 0 := by decide
  have scale : (number.log2 : Int) - (0 : Nat) = number.log2 := by omega
  simp only [nearestMagnitude, if_neg positive, one, scale, Int.natCast_nonneg,
    if_true, Int.toNat_natCast, Nat.one_shiftLeft, notBelow, if_false]
  by_cases wide : 52 ≤ number.log2
  · have power :
        max ((number.log2 : Int) - 52) (-1074) =
          ((number.log2 - 52 : Nat) : Int) := by
      omega
    have exponent :
        (((number.log2 - 52 : Nat) : Int) + 1074).toNat =
          number.log2 + 1022 := by
      omega
    rw [power, exponent, leadingBits, if_pos wide,
      if_pos (Int.natCast_nonneg _), Int.toNat_natCast]
  · have power :
        max ((number.log2 : Int) - 52) (-1074) = (number.log2 : Int) - 52 := by
      omega
    have exponent :
        ((number.log2 : Int) - 52 + 1074).toNat = number.log2 + 1022 := by omega
    have negated : (-((number.log2 : Int) - 52)).toNat = 52 - number.log2 := by
      omega
    rw [power, exponent, leadingBits, if_neg wide, if_neg (by omega), negated,
      Nat.shiftLeft_eq, roundedQuotient_one]

theorem exponentUnit_eq : exponentUnit = 2 ^ 52 := by decide

/-- The significand has 53 bits, or is the next power of two. -/
theorem leadingBits_bounds {number : Nat} (positive : number ≠ 0) :
    exponentUnit ≤ leadingBits number ∧
      leadingBits number ≤ 2 * exponentUnit := by
  have least : 2 ^ number.log2 ≤ number := Nat.log2_self_le positive
  have most : number < 2 ^ (number.log2 + 1) := Nat.lt_log2_self
  rw [exponentUnit_eq, leadingBits]
  split
  · rename_i wide
    have unit : 0 < 2 ^ (number.log2 - 52) := Nat.two_pow_pos _
    have split : 2 ^ number.log2 = 2 ^ 52 * 2 ^ (number.log2 - 52) := by
      rw [← Nat.pow_add, Nat.add_sub_cancel' wide]
    constructor
    · calc
        2 ^ 52 = roundedQuotient (2 ^ 52 * 2 ^ (number.log2 - 52))
            (2 ^ (number.log2 - 52)) := (roundedQuotient_mul _ unit).symm
        _ ≤ _ := roundedQuotient_mono (by omega) _
    · calc
        _ ≤ roundedQuotient (2 * 2 ^ 52 * 2 ^ (number.log2 - 52))
            (2 ^ (number.log2 - 52)) := roundedQuotient_mono (by omega) _
        _ = 2 * 2 ^ 52 := roundedQuotient_mul _ unit
  · rename_i narrow
    have split : 2 ^ 52 = 2 ^ number.log2 * 2 ^ (52 - number.log2) := by
      rw [← Nat.pow_add, Nat.add_sub_cancel' (by omega)]
    rw [split]
    constructor
    · exact Nat.mul_le_mul_right _ least
    · calc
        number * 2 ^ (52 - number.log2)
          ≤ 2 * 2 ^ number.log2 * 2 ^ (52 - number.log2) :=
            Nat.mul_le_mul_right _ (by omega)
        _ = 2 * (2 ^ number.log2 * 2 ^ (52 - number.log2)) :=
          Nat.mul_assoc _ _ _

/-- A number of at most 53 bits loses none. -/
theorem leadingBits_of_lt
    {number : Nat}
    (positive : number ≠ 0)
    (small : number < 2 ^ 53) :
    leadingBits number = number * 2 ^ (52 - number.log2) ∧
      leadingBits number < 2 * exponentUnit := by
  have atMost : number.log2 < 53 := (Nat.log2_lt positive).mpr small
  have exact : leadingBits number = number * 2 ^ (52 - number.log2) := by
    rw [leadingBits]
    split
    · have none : number.log2 - 52 = 0 ∧ 52 - number.log2 = 0 := by omega
      rw [none.1, none.2, Nat.pow_zero, roundedQuotient_one, Nat.mul_one]
    · rfl
  refine ⟨exact, ?_⟩
  calc leadingBits number = number * 2 ^ (52 - number.log2) := exact
    _ < 2 ^ (number.log2 + 1) * 2 ^ (52 - number.log2) :=
      Nat.mul_lt_mul_of_pos_right Nat.lt_log2_self (Nat.two_pow_pos _)
    _ = 2 ^ 53 := by rw [← Nat.pow_add]; congr 1; omega
    _ = 2 * exponentUnit := by decide

theorem nearestMagnitude_mono {small large : Nat} (ordered : small ≤ large) :
    nearestMagnitude small 1 ≤ nearestMagnitude large 1 := by
  by_cases zero : small = 0
  · rw [zero]
    exact Nat.zero_le _
  have positive : large ≠ 0 := by omega
  rw [nearestMagnitude_one zero, nearestMagnitude_one positive]
  refine min_le_min_left _ ?_
  have logarithms : small.log2 ≤ large.log2 :=
    (Nat.le_log2 positive).mpr ((Nat.log2_self_le zero).trans ordered)
  rcases Nat.lt_or_eq_of_le logarithms with below | same
  · -- The next power of two lies between the two.
    have smallBounds := leadingBits_bounds zero
    have largeBounds := leadingBits_bounds positive
    have units := Nat.mul_le_mul_right exponentUnit below
    rw [Nat.succ_mul] at units
    rw [Nat.add_mul, Nat.add_mul]
    omega
  · rw [same]
    refine Nat.add_le_add_left ?_ _
    rw [leadingBits, leadingBits, same]
    split
    · exact roundedQuotient_mono ordered _
    · exact Nat.mul_le_mul_right _ ordered

/-- Up to two to the fifty-third, no two natural numbers are rounded to one. -/
theorem nearestMagnitude_lt
    {small large : Nat}
    (ordered : small < large)
    (bounded : large ≤ 2 ^ 53) :
    nearestMagnitude small 1 < nearestMagnitude large 1 := by
  have positive : large ≠ 0 := by omega
  have largeBounds := leadingBits_bounds positive
  have finite : nearestMagnitude large 1 =
      (large.log2 + 1022) * exponentUnit + leadingBits large := by
    have logarithm : large.log2 < 54 := (Nat.log2_lt positive).mpr (by omega)
    have units :=
      Nat.mul_le_mul_right exponentUnit (Nat.le_of_lt_succ logarithm)
    rw [nearestMagnitude_one positive, Nat.add_mul]
    simp only [infinityBits, exponentUnit] at *
    omega
  rw [finite]
  by_cases zero : small = 0
  · have none : nearestMagnitude small 1 = 0 := by rw [zero]; rfl
    have unit : 0 < exponentUnit := by decide
    omega
  rw [nearestMagnitude_one zero]
  refine (min_le_right _ _).trans_lt ?_
  obtain ⟨smallBits, below⟩ := leadingBits_of_lt zero (ordered.trans_le bounded)
  have logarithms : small.log2 ≤ large.log2 :=
    (Nat.le_log2 positive).mpr ((Nat.log2_self_le zero).trans ordered.le)
  rcases Nat.lt_or_eq_of_le logarithms with lower | same
  · have units := Nat.mul_le_mul_right exponentUnit lower
    rw [Nat.succ_mul] at units
    rw [Nat.add_mul, Nat.add_mul]
    omega
  · have logarithm : small.log2 < 53 :=
      (Nat.log2_lt zero).mpr (ordered.trans_le bounded)
    have narrow : large < 2 ^ 53 := (Nat.log2_lt positive).mp (same ▸ logarithm)
    rw [smallBits, (leadingBits_of_lt positive narrow).1, same]
    exact Nat.add_lt_add_left
      (Nat.mul_lt_mul_of_pos_right ordered (Nat.two_pow_pos _)) _

/-! ## The places of integers -/

theorem nearestMagnitude_le (numerator denominator : Nat) :
    nearestMagnitude numerator denominator ≤ infinityBits := by
  unfold nearestMagnitude
  split
  · exact Nat.zero_le _
  · exact min_le_left _ _

/-- Rounding keeps the sign, and rounds the magnitude. -/
theorem sign_and_magnitude_ofInt (value : Int) :
    (ofInt value).isNegative = decide (value < 0) ∧
      (ofInt value).magnitude = nearestMagnitude value.natAbs 1 := by
  have bound := nearestMagnitude_le value.natAbs 1
  unfold ofInt
  split
  · rename_i negative
    have bits :
        (UInt64.ofNat (signUnit + nearestMagnitude value.natAbs 1)).toNat =
          signUnit + nearestMagnitude value.natAbs 1 := by
      refine UInt64.toNat_ofNat_of_lt ?_
      simp only [infinityBits, signUnit, UInt64.size] at *
      omega
    simp only [isNegative, magnitude, bits, signUnit, infinityBits, negative]
      at *
    exact ⟨by simp, by omega⟩
  · rename_i nonnegative
    have bits : (UInt64.ofNat (nearestMagnitude value.natAbs 1)).toNat =
        nearestMagnitude value.natAbs 1 := by
      refine UInt64.toNat_ofNat_of_lt ?_
      simp only [infinityBits, UInt64.size] at *
      omega
    simp only [ofRatio, isNegative, magnitude, bits, signUnit, infinityBits,
      nonnegative] at *
    exact ⟨by simp; omega, by omega⟩

@[simp] theorem isNaN_ofInt (value : Int) : (ofInt value).isNaN = false := by
  have bound := nearestMagnitude_le value.natAbs 1
  rw [isNaN, (sign_and_magnitude_ofInt value).2, decide_eq_false_iff_not]
  omega

theorem place_ofInt (value : Int) :
    (ofInt value).place =
      if value < 0 then -(nearestMagnitude value.natAbs 1 : Int)
      else nearestMagnitude value.natAbs 1 := by
  obtain ⟨sign, magnitude⟩ := sign_and_magnitude_ofInt value
  rw [place, sign, magnitude]
  simp only [decide_eq_true_eq]

/-- Rounding keeps the order of integers. -/
theorem place_ofInt_mono {small large : Int} (ordered : small ≤ large) :
    (ofInt small).place ≤ (ofInt large).place := by
  rw [place_ofInt, place_ofInt]
  split <;> split
  · have magnitudes : large.natAbs ≤ small.natAbs := by omega
    have rounded := nearestMagnitude_mono magnitudes
    omega
  · omega
  · omega
  · have magnitudes : small.natAbs ≤ large.natAbs := by omega
    have rounded := nearestMagnitude_mono magnitudes
    omega

/-- Natural numbers that are rounded alike are the same, unless they are
large. -/
theorem eq_of_nearestMagnitude_eq
    {number other : Nat}
    (small : number < 2 ^ 53)
    (same : nearestMagnitude number 1 = nearestMagnitude other 1) :
    number = other := by
  rcases Nat.lt_trichotomy number other with below | equal | above
  · have first :
        nearestMagnitude number 1 < nearestMagnitude (min other (2 ^ 53)) 1 :=
      nearestMagnitude_lt (lt_min below small) (min_le_right _ _)
    have second := nearestMagnitude_mono (min_le_left other (2 ^ 53))
    omega
  · exact equal
  · have reversed := nearestMagnitude_lt above small.le
    omega

/-- Different integers that are rounded to one number have a magnitude of at
least two to the fifty-third. -/
theorem natAbs_ge_of_ofInt_eq {value other : Int} (different : value ≠ other)
    (same : ofInt value = ofInt other) : 2 ^ 53 ≤ value.natAbs := by
  obtain ⟨sign, magnitude⟩ := sign_and_magnitude_ofInt value
  obtain ⟨otherSign, otherMagnitude⟩ := sign_and_magnitude_ofInt other
  rw [same, otherSign, decide_eq_decide] at sign
  rw [same, otherMagnitude] at magnitude
  by_contra small
  have magnitudes := eq_of_nearestMagnitude_eq (by omega) magnitude.symm
  omega

theorem eq_zero_of_nearestMagnitude
    {number : Nat}
    (zero : nearestMagnitude number 1 = 0) :
    number = 0 := by
  have none : nearestMagnitude 0 1 = nearestMagnitude number 1 := zero.symm
  exact (eq_of_nearestMagnitude_eq (by decide) none).symm

/-- Integers with one place are rounded to one number. -/
theorem ofInt_eq_of_place_eq
    {value other : Int}
    (places : (ofInt value).place = (ofInt other).place) :
    ofInt value = ofInt other := by
  have equal : (ofInt value).equals (ofInt other) = true := by
    simp [equals, compare?, places]
  rcases eq_or_zeros_of_equals equal with same | ⟨zero, otherZero⟩
  · exact same
  · rw [(sign_and_magnitude_ofInt _).2] at zero otherZero
    have first := eq_zero_of_nearestMagnitude zero
    have second := eq_zero_of_nearestMagnitude otherZero
    have both : value = other := by omega
    rw [both]

end Binary64

end DeltaGraph
