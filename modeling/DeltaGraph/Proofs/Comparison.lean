import DeltaGraph.Proofs.Binary64.Integers

/-!
# The order of values

Predicates order the values of one kind, and order integers and floating-point
numbers among each other.  An integer is rounded when it meets a floating-point
number, and is not when it meets an integer, so different integers may be equal
to one floating-point number.  Nothing else keeps the comparison from being a
consistent order, and it takes integers of a magnitude of at least two to the
fifty-third.
-/

namespace DeltaGraph

namespace Binary64

theorem compare?_eq_some_iff {left right : Binary64} {order : Ordering} :
    left.compare? right = some order ↔
      (left.isNaN = false ∧ right.isNaN = false) ∧
        compare left.place right.place = order := by
  unfold compare?
  split <;> rename_i missing
  · simp only [reduceCtorEq, false_iff]
    rintro ⟨⟨left, right⟩, -⟩
    simp [left, right] at missing
  · have numbers : left.isNaN = false ∧ right.isNaN = false := by
      simpa using missing
    simp [numbers]

theorem compare?_swap (left right : Binary64) :
    right.compare? left = (left.compare? right).map Ordering.swap := by
  unfold compare?
  rw [Bool.or_comm]
  split
  · rfl
  · exact congrArg some Std.OrientedOrd.eq_swap

end Binary64

namespace Value

/-- The value meets floating-point numbers as the number. -/
inductive IsNumber : Value → Binary64 → Prop
  | int (value : Int64) : IsNumber (.int value) (.ofInt value.toInt)
  | float (number : Binary64) : IsNumber (.float number) number

/-- Different integers that are rounded to one floating-point number. -/
def Collides (left right : Value) : Prop :=
  ∃ first second : Int64, left = .int first ∧ right = .int second ∧
    first ≠ second ∧
    Binary64.ofInt first.toInt = Binary64.ofInt second.toInt

theorem compare?_swap (left right : Value) :
    right.compare? left = (left.compare? right).map Ordering.swap := by
  cases left <;> cases right <;>
    simp only [compare?, Option.map_none, Option.map_some]
  all_goals first
    | exact Binary64.compare?_swap _ _
    | exact congrArg some Std.OrientedOrd.eq_swap

/-- Values that compare are numbers, or truth values, or texts. -/
theorem kind_of_compare? {left right : Value} {order : Ordering}
    (compares : left.compare? right = some order) :
    (∃ first second, left.IsNumber first ∧ right.IsNumber second) ∨
      (∃ first second, left = .bool first ∧ right = .bool second) ∨
      ∃ first second, left = .string first ∧ right = .string second := by
  cases left <;> cases right <;> simp only [compare?, reduceCtorEq] at compares
  case bool.bool => exact .inr (.inl ⟨_, _, rfl, rfl⟩)
  case string.string => exact .inr (.inr ⟨_, _, rfl, rfl⟩)
  case int.int => exact .inl ⟨_, _, .int _, .int _⟩
  case int.float => exact .inl ⟨_, _, .int _, .float _⟩
  case float.int => exact .inl ⟨_, _, .float _, .int _⟩
  case float.float => exact .inl ⟨_, _, .float _, .float _⟩

/-! ## Numbers -/

section

variable {left right : Value} {first second : Binary64}

/-- What a number compares with is a number. -/
theorem IsNumber.of_compare?
    (number : left.IsNumber first)
    {order : Ordering}
    (compares : left.compare? right = some order) :
    ∃ second, right.IsNumber second := by
  rcases kind_of_compare? compares with
    ⟨_, second, _, other⟩ | ⟨_, _, rfl, _⟩ | ⟨_, _, rfl, _⟩
  · exact ⟨second, other⟩
  · cases number
  · cases number

/-- Numbers are compared as floating-point numbers, unless both are integers. -/
theorem IsNumber.compare?_cases (number : left.IsNumber first)
    (other : right.IsNumber second) :
    left.compare? right = first.compare? second ∨
      ∃ value otherValue : Int64, left = .int value ∧ right = .int otherValue ∧
        first = .ofInt value.toInt ∧ second = .ofInt otherValue.toInt := by
  cases number with
  | float => cases other <;> exact .inl rfl
  | int value =>
      cases other with
      | float => exact .inl rfl
      | int otherValue => exact .inr ⟨value, otherValue, rfl, rfl, rfl, rfl⟩

/-- Numbers compare in the order of their places, wherever the places differ. -/
theorem compare?_of_place_lt
    (number : left.IsNumber first)
    (other : right.IsNumber second)
    (numbers : first.isNaN = false ∧ second.isNaN = false)
    (before : first.place < second.place) :
    left.compare? right = some .lt := by
  rcases number.compare?_cases other
    with same | ⟨value, otherValue, rfl, rfl, rfl, rfl⟩
  · rw [same]
    exact Binary64.compare?_eq_some_iff.mpr
      ⟨numbers, compare_lt_iff_lt.mpr before⟩
  · have integers : value.toInt < otherValue.toInt := by
      by_contra notBefore
      have reversed := Binary64.place_ofInt_mono (Int.not_lt.mp notBefore)
      omega
    exact congrArg some (compare_lt_iff_lt.mpr integers)

/-- Numbers in one place are equal, unless they are integers that collide. -/
theorem compare?_of_place_eq
    (number : left.IsNumber first)
    (other : right.IsNumber second)
    (numbers : first.isNaN = false ∧ second.isNaN = false)
    (places : first.place = second.place) :
    left.compare? right = some .eq ∨ left.Collides right := by
  rcases number.compare?_cases other
    with same | ⟨value, otherValue, rfl, rfl, rfl, rfl⟩
  · rw [same]
    exact .inl
      (Binary64.compare?_eq_some_iff.mpr
        ⟨numbers, compare_eq_iff_eq.mpr places⟩)
  · by_cases equal : value = otherValue
    · rw [equal]
      exact .inl (congrArg some (compare_eq_iff_eq.mpr rfl))
    · exact .inr
        ⟨value, otherValue, rfl, rfl, equal,
          Binary64.ofInt_eq_of_place_eq places⟩

/-- Equal numbers have one place. -/
theorem place_of_compare?_eq
    (number : left.IsNumber first)
    (other : right.IsNumber second)
    (equal : left.compare? right = some .eq) :
    (first.isNaN = false ∧ second.isNaN = false) ∧
      first.place = second.place := by
  rcases number.compare?_cases other
    with same | ⟨value, otherValue, rfl, rfl, rfl, rfl⟩
  · rw [same] at equal
    exact (Binary64.compare?_eq_some_iff.mp equal).imp_right
      compare_eq_iff_eq.mp
  · have integers := compare_eq_iff_eq.mp (Option.some.inj equal)
    exact ⟨⟨Binary64.isNaN_ofInt _, Binary64.isNaN_ofInt _⟩, by rw [integers]⟩

/-- A smaller number has an earlier place, unless the numbers are integers that
collide. -/
theorem place_of_compare?_lt
    (number : left.IsNumber first)
    (other : right.IsNumber second)
    (less : left.compare? right = some .lt) :
    (first.isNaN = false ∧ second.isNaN = false) ∧
      (first.place < second.place ∨
        first.place = second.place ∧ left.Collides right) := by
  rcases number.compare?_cases other
    with same | ⟨value, otherValue, rfl, rfl, rfl, rfl⟩
  · rw [same] at less
    exact (Binary64.compare?_eq_some_iff.mp less).imp_right
      fun before => .inl (compare_lt_iff_lt.mp before)
  · have integers := compare_lt_iff_lt.mp (Option.some.inj less)
    refine ⟨⟨Binary64.isNaN_ofInt _, Binary64.isNaN_ofInt _⟩, ?_⟩
    rcases Int.lt_or_eq_of_le (Binary64.place_ofInt_mono integers.le)
      with before | places
    · exact .inl before
    · have different : value ≠ otherValue := by
        rintro rfl
        exact Int.lt_irrefl _ integers
      exact .inr ⟨places, value, otherValue, rfl, rfl, different,
        Binary64.ofInt_eq_of_place_eq places⟩

theorem compare?_int_eq {value other : Int64}
    (equal : (int value).compare? (int other) = some .eq) : value = other :=
  Int64.toInt_inj.mp (compare_eq_iff_eq.mp (Option.some.inj equal))

theorem compare?_int_lt {value other : Int64} :
    (int value).compare? (int other) = some .lt ↔ value.toInt < other.toInt :=
  Option.some_inj.trans compare_lt_iff_lt

end

/-! ## Three values -/

section

variable {a b c : Value}

/-- Values that are equal to one value are equal, unless they are integers that
collide. -/
theorem compare?_eq_trans (first : a.compare? b = some .eq)
    (second : b.compare? c = some .eq) :
    a.compare? c = some .eq ∨ a.Collides c ∧ ∃ number, b = .float number := by
  rcases kind_of_compare? first
    with ⟨x, y, numberA, numberB⟩ | ⟨x, y, rfl, rfl⟩ | ⟨x, y, rfl, rfl⟩
  · obtain ⟨z, numberC⟩ := numberB.of_compare? second
    obtain ⟨⟨notNaN, _⟩, places⟩ := place_of_compare?_eq numberA numberB first
    obtain ⟨⟨_, lastNotNaN⟩, laterPlaces⟩ :=
      place_of_compare?_eq numberB numberC second
    refine (compare?_of_place_eq numberA numberC ⟨notNaN, lastNotNaN⟩
      (places.trans laterPlaces)).imp_right fun collides => ⟨collides, ?_⟩
    cases numberB with
    | float => exact ⟨_, rfl⟩
    | int value =>
        obtain ⟨u, w, rfl, rfl, different, _⟩ := collides
        exact absurd ((compare?_int_eq first).trans (compare?_int_eq second))
          different
  · rw [Std.LawfulEqOrd.eq_of_compare (Option.some.inj first)]
    exact .inl second
  · rw [Std.LawfulEqOrd.eq_of_compare (Option.some.inj first)]
    exact .inl second

/-- A number is less than all numbers that a larger one is not greater than,
unless the two are integers that collide. -/
theorem IsNumber.compare?_lt_trans
    {x y z : Binary64}
    (numberA : a.IsNumber x)
    (numberB : b.IsNumber y)
    (numberC : c.IsNumber z)
    (first : a.compare? b = some .lt)
    (second : b.compare? c = some .lt ∨ b.compare? c = some .eq) :
    a.compare? c = some .lt ∨
      a.Collides b ∧ (∃ number, c = .float number) ∧
        a.compare? c = some .eq := by
  obtain ⟨⟨notNaN, _⟩, places⟩ := place_of_compare?_lt numberA numberB first
  have later : z.isNaN = false ∧ y.place ≤ z.place := by
    rcases second with less | equal
    · obtain ⟨⟨_, lastNotNaN⟩, before | ⟨same, _⟩⟩ :=
        place_of_compare?_lt numberB numberC less
      · exact ⟨lastNotNaN, before.le⟩
      · exact ⟨lastNotNaN, same.le⟩
    · obtain ⟨⟨_, lastNotNaN⟩, same⟩ :=
        place_of_compare?_eq numberB numberC equal
      exact ⟨lastNotNaN, same.le⟩
  obtain ⟨lastNotNaN, laterPlaces⟩ := later
  by_cases before : x.place < z.place
  · exact .inl
      (compare?_of_place_lt numberA numberC ⟨notNaN, lastNotNaN⟩ before)
  -- All three have one place, so the first two collide.
  obtain below | ⟨same, collides⟩ := places
  · omega
  have sameLast : x.place = z.place := by omega
  have collided := collides
  obtain ⟨u, v, rfl, rfl, _⟩ := collides
  cases numberC with
  | float =>
      rcases compare?_of_place_eq numberA (.float z) ⟨notNaN, lastNotNaN⟩
        sameLast with
          equal | ⟨_, _, _, other, _⟩
      · exact .inr ⟨collided, ⟨z, rfl⟩, equal⟩
      · cases other
  | int w =>
      left
      rcases second with less | equal
      · exact compare?_int_lt.mpr
          ((compare?_int_lt.mp first).trans (compare?_int_lt.mp less))
      · rw [← compare?_int_eq equal]
        exact first

theorem compare_lt_trans {α : Type} [Ord α] [Std.TransOrd α] {x y z : α}
    (first : some (compare x y) = some .lt)
    (second : some (compare y z) = some .lt ∨ some (compare y z) = some .eq) :
    some (compare x z) = some .lt := by
  have notGreater : (compare y z).isLE = true := by
    rcases second with less | equal
    · rw [Option.some.inj less]; rfl
    · rw [Option.some.inj equal]; rfl
  exact congrArg some
    (Std.TransCmp.lt_of_lt_of_isLE (Option.some.inj first) notGreater)

/-- A value is less than all that a larger one is not greater than, unless the
two are integers that collide and the third is the floating-point number to
which they are rounded. -/
theorem compare?_lt_trans (first : a.compare? b = some .lt)
    (second : b.compare? c = some .lt ∨ b.compare? c = some .eq) :
    a.compare? c = some .lt ∨
      a.Collides b ∧ (∃ number, c = .float number) ∧
        a.compare? c = some .eq := by
  obtain ⟨order, compares⟩ : ∃ order, b.compare? c = some order :=
    second.elim (⟨_, ·⟩) (⟨_, ·⟩)
  rcases kind_of_compare? first
    with ⟨x, y, numberA, numberB⟩ | ⟨x, y, rfl, rfl⟩ | ⟨x, y, rfl, rfl⟩
  · obtain ⟨z, numberC⟩ := numberB.of_compare? compares
    exact numberA.compare?_lt_trans numberB numberC first second
  · rcases kind_of_compare? compares
      with ⟨_, _, other, _⟩ | ⟨_, z, _, rfl⟩ | ⟨_, _, other, _⟩
    · cases other
    · exact .inl (compare_lt_trans first second)
    · cases other
  · rcases kind_of_compare? compares
      with ⟨_, _, other, _⟩ | ⟨_, _, other, _⟩ | ⟨_, z, _, rfl⟩
    · cases other
    · cases other
    · exact .inl (compare_lt_trans first second)

theorem Collides.large (collides : a.Collides b) :
    ∃ first second : Int64, a = .int first ∧ b = .int second ∧
      2 ^ 53 ≤ first.toInt.natAbs ∧ 2 ^ 53 ≤ second.toInt.natAbs := by
  obtain ⟨first, second, rfl, rfl, different, same⟩ := collides
  have integers : first.toInt ≠ second.toInt :=
    fun equal => different (Int64.toInt_inj.mp equal)
  exact ⟨first, second, rfl, rfl, Binary64.natAbs_ge_of_ofInt_eq integers same,
    Binary64.natAbs_ge_of_ofInt_eq integers.symm same.symm⟩

theorem holds_equal_iff : Comparison.equal.holds a b = true ↔
    a.compare? b = some .eq := by
  unfold Comparison.holds
  cases a.compare? b <;> simp [Comparison.admits]

end

/-- Comparing is a consistent order, up to integers that collide: the reverse
comparison gives the reverse order, values that are equal to one value are
equal, and a smaller value is less than all that a larger one is not greater
than.  Only different integers of a magnitude of at least two to the fifty-third
collide, and it takes the floating-point number to which both are rounded to see
it. -/
theorem compares_consistently (a b c : Value) :
    b.compare? a = (a.compare? b).map Ordering.swap ∧
    (a.compare? b = some .eq → b.compare? c = some .eq →
      a.compare? c = some .eq ∨ a.Collides c ∧ ∃ number, b = .float number) ∧
    (a.compare? b = some .lt →
      (b.compare? c = some .lt ∨ b.compare? c = some .eq) →
      a.compare? c = some .lt ∨
        a.Collides b ∧ (∃ number, c = .float number) ∧
          a.compare? c = some .eq) ∧
    (Comparison.equal.holds a b = true → Comparison.equal.holds b c = true →
      Comparison.equal.holds a c = true ∨
        a.Collides c ∧ ∃ number, b = .float number) ∧
    (a.Collides b → ∃ first second : Int64, a = .int first ∧ b = .int second ∧
      2 ^ 53 ≤ first.toInt.natAbs ∧ 2 ^ 53 ≤ second.toInt.natAbs) := by
  refine ⟨compare?_swap a b, compare?_eq_trans, compare?_lt_trans, ?_,
    Collides.large⟩
  simp only [holds_equal_iff]
  exact compare?_eq_trans

/-- A floating-point number between two integers, and one that is equal to an
integer. -/
theorem compares_consistently_with_mixed_kinds :
    let two : Value := .int 2
    let half : Value := .float ⟨0x4004000000000000⟩
    let three : Value := .int 3
    let threeFloat : Value := .float ⟨0x4008000000000000⟩
    (two.compare? half = some .lt ∧ half.compare? three = some .lt ∧
      two.compare? three = some .lt) ∧
    (Comparison.equal.holds three threeFloat = true ∧
      Comparison.equal.holds threeFloat three = true ∧
      Comparison.equal.holds three three = true) := by
  intro two half three threeFloat
  have less : two.compare? half = some .lt ∧
      half.compare? three = some .lt := by decide +kernel
  have equal : Comparison.equal.holds three threeFloat = true ∧
      Comparison.equal.holds threeFloat three = true := by decide +kernel
  refine ⟨⟨less.1, less.2, ?_⟩, equal.1, equal.2, ?_⟩
  · obtain before | ⟨⟨_, _, _, other, _⟩, _⟩ :=
      (compares_consistently two half three).2.2.1 less.1 (.inl less.2)
    · exact before
    · exact Value.noConfusion other
  · obtain same | ⟨⟨_, _, first, second, different, _⟩, _⟩ :=
      (compares_consistently three threeFloat three).2.2.2.1 equal.1 equal.2
    · exact same
    · exact absurd (Value.int.inj (first.symm.trans second)) different

/-- Two to the fifty-third and the integer after it are equal to one
floating-point number, and not to each other. -/
theorem not_transitive_for_large_integers :
    let lower : Value := .int 9007199254740992
    let upper : Value := .int 9007199254740993
    let number : Value := .float ⟨0x4340000000000000⟩
    (lower.compare? number = some .eq ∧ number.compare? upper = some .eq ∧
      lower.compare? upper = some .lt) ∧
    (upper.compare? number = some .eq ∧ lower.compare? number ≠ some .lt) ∧
    (Comparison.equal.holds lower number = true ∧
      Comparison.equal.holds number upper = true ∧
      Comparison.equal.holds lower upper = false) := by
  decide +kernel

end Value

end DeltaGraph
