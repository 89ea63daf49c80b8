import DeltaGraph.Graph
import Mathlib.Tactic.Common

/-!
# Values alike

A stored floating-point zero may be replaced by a zero of the other sign, since
the two are equal.  Values that differ in nothing else are alike: predicates
cannot tell them apart.
-/

namespace DeltaGraph

namespace Binary64

/-- The sign and the magnitude determine a number. -/
theorem toNat_bits (number : Binary64) :
    number.bits.toNat =
      (if number.isNegative then signUnit else 0) + number.magnitude := by
  have bound := number.bits.toNat_lt
  unfold isNegative magnitude signUnit
  split <;> rename_i sign <;> simp only [decide_eq_true_eq] at sign <;> omega

/-- Equal numbers are the same, or both are zeros. -/
theorem eq_or_zeros_of_equals
    {left right : Binary64}
    (equal : left.equals right = true) :
    left = right ∨ left.magnitude = 0 ∧ right.magnitude = 0 := by
  unfold equals compare? at equal
  split at equal
  · simp at equal
  · have places : left.place = right.place := by
      simpa [Std.LawfulEqOrd.compare_eq_iff_eq] using equal
    have leftBits := left.toNat_bits
    have rightBits := right.toNat_bits
    unfold place at places
    by_cases zero : left.magnitude = 0 ∧ right.magnitude = 0
    · exact .inr zero
    · left
      have same : left.bits.toNat = right.bits.toNat := by
        cases leftSign : left.isNegative <;>
          cases rightSign : right.isNegative <;>
          simp only [leftSign, rightSign, Bool.false_eq_true, if_true, if_false]
            at * <;> omega
      cases left
      cases right
      exact congrArg Binary64.mk (UInt64.toNat_inj.mp same)

/-- A zero is not a NaN. -/
theorem isNaN_of_zero {number : Binary64} (zero : number.magnitude = 0) :
    number.isNaN = false := by
  simp [isNaN, zero]

/-- Both zeros have the place 0. -/
theorem place_of_zero {number : Binary64} (zero : number.magnitude = 0) :
    number.place = 0 := by
  simp [place, zero]

/-- The sign of a zero does not show on the left of a comparison. -/
theorem compare?_left_of_zeros
    {left other : Binary64}
    (zero : left.magnitude = 0)
    (otherZero : other.magnitude = 0)
    (right : Binary64) :
    left.compare? right = other.compare? right := by
  simp only [compare?, isNaN_of_zero zero, isNaN_of_zero otherZero,
    place_of_zero zero, place_of_zero otherZero]

/-- The sign of a zero does not show on the right of a comparison. -/
theorem compare?_right_of_zeros
    {right other : Binary64}
    (zero : right.magnitude = 0)
    (otherZero : other.magnitude = 0)
    (left : Binary64) :
    left.compare? right = left.compare? other := by
  simp only [compare?, isNaN_of_zero zero, isNaN_of_zero otherZero,
    place_of_zero zero, place_of_zero otherZero]

end Binary64

/-- A relation that is transitive on values is transitive on values that may be
missing. -/
theorem optionRel_trans
    {α β γ : Type}
    {first : α → β → Prop}
    {second : β → γ → Prop}
    {both : α → γ → Prop}
    (trans : ∀ a b c, first a b → second b c → both a c)
    {left : Option α}
    {middle : Option β}
    {right : Option γ}
    (leftMiddle : Option.Rel first left middle)
    (middleRight : Option.Rel second middle right) :
    Option.Rel both left right := by
  cases leftMiddle with
  | none =>
      cases middleRight with
      | none => exact .none
  | some related =>
      cases middleRight with
      | some next => exact .some (trans _ _ _ related next)

/-- The converse of a relation on values that may be missing. -/
theorem optionRel_symm
    {α β : Type}
    {relation : α → β → Prop}
    {converse : β → α → Prop}
    (symm : ∀ a b, relation a b → converse b a)
    {left : Option α}
    {right : Option β}
    (related : Option.Rel relation left right) :
    Option.Rel converse right left := by
  cases related with
  | none => exact .none
  | some values => exact .some (symm _ _ values)

/-- A reflexive relation on values is reflexive on values that may be
missing. -/
theorem optionRel_refl
    {α : Type}
    {relation : α → α → Prop}
    (refl : ∀ a, relation a a)
    (value : Option α) :
    Option.Rel relation value value := by
  cases value with
  | none => exact .none
  | some present => exact .some (refl present)

/-- Related values that may be missing have the same image under a function that
identifies related values. -/
theorem map_eq_of_optionRel
    {α β γ : Type}
    {relation : α → β → Prop}
    {left : Option α}
    {right : Option β}
    (related : Option.Rel relation left right)
    {image : α → γ}
    {another : β → γ}
    (same : ∀ a b, relation a b → image a = another b) :
    left.map image = right.map another := by
  cases related with
  | none => rfl
  | some values => exact congrArg some (same _ _ values)

/-- Functions that respect a relation respect it on values that may be
missing. -/
theorem optionRel_bind
    {α β γ δ : Type}
    {relation : α → β → Prop}
    {result : γ → δ → Prop}
    {left : Option α}
    {right : Option β}
    (related : Option.Rel relation left right)
    {next : α → Option γ}
    {another : β → Option δ}
    (same : ∀ a b, relation a b → Option.Rel result (next a) (another b)) :
    Option.Rel result (left.bind next) (right.bind another) := by
  cases related with
  | none => exact .none
  | some values => exact same _ _ values

namespace Value

/-- The values differ at most in the sign of a floating-point zero. -/
def Alike (left right : Value) : Prop :=
  left = right ∨ ∃ number other : Binary64,
    left = .float number ∧ right = .float other ∧
      number.magnitude = 0 ∧ other.magnitude = 0

theorem Alike.refl (value : Value) : value.Alike value :=
  .inl rfl

theorem Alike.symm
    {left right : Value}
    (alike : left.Alike right) : right.Alike left := by
  rcases alike
    with equal | ⟨number, other, leftFloat, rightFloat, zero, otherZero⟩
  · exact .inl equal.symm
  · exact .inr ⟨other, number, rightFloat, leftFloat, otherZero, zero⟩

theorem Alike.trans
    {left middle right : Value}
    (first : left.Alike middle)
    (second : middle.Alike right) : left.Alike right := by
  rcases first with rfl | ⟨number, other, rfl, rfl, zero, otherZero⟩
  · exact second
  · rcases second with rfl | ⟨_, last, _, rfl, _, lastZero⟩
    · exact .inr ⟨number, other, rfl, rfl, zero, otherZero⟩
    · exact .inr ⟨number, last, rfl, rfl, zero, lastZero⟩

/-- Equal stored values are alike. -/
theorem Alike.of_equals
    {left right : Value}
    (equal : left.equals right = true) :
    left.Alike right := by
  unfold equals at equal
  split at equal
  · exact .inl rfl
  · exact .inl (congrArg Value.bool (by simpa using equal))
  · exact .inl (congrArg Value.int (by simpa using equal))
  · rcases Binary64.eq_or_zeros_of_equals equal with same | ⟨zero, otherZero⟩
    · exact .inl (congrArg Value.float same)
    · exact .inr ⟨_, _, rfl, rfl, zero, otherZero⟩
  · exact .inl (congrArg Value.string (by simpa using equal))
  · simp at equal

/-- Predicates order a value as they order values like it. -/
theorem Alike.compare?_eq {left other right another : Value}
    (lefts : left.Alike other) (rights : right.Alike another) :
    left.compare? right = other.compare? another := by
  rcases lefts with rfl | ⟨number, first, rfl, rfl, zero, firstZero⟩ <;>
    rcases rights
      with rfl | ⟨opposite, second, rfl, rfl, oppositeZero, secondZero⟩
  · rfl
  · cases left <;> simp only [Value.compare?]
    · exact Binary64.compare?_right_of_zeros oppositeZero secondZero _
    · exact Binary64.compare?_right_of_zeros oppositeZero secondZero _
  · cases right <;> simp only [Value.compare?]
    · exact Binary64.compare?_left_of_zeros zero firstZero _
    · exact Binary64.compare?_left_of_zeros zero firstZero _
  · simp only [Value.compare?]
    rw [Binary64.compare?_left_of_zeros zero firstZero,
      Binary64.compare?_right_of_zeros oppositeZero secondZero]

/-- A value is equal to another if the values like it are. -/
theorem Alike.equals_eq
    {left other : Value}
    (alike : left.Alike other)
    (right : Value) :
    left.equals right = other.equals right := by
  rcases alike with rfl | ⟨number, first, rfl, rfl, zero, firstZero⟩
  · rfl
  · cases right with
    | float second =>
        simp only [Value.equals, Binary64.equals]
        rw [Binary64.compare?_left_of_zeros zero firstZero]
    | _ => rfl

end Value

namespace Properties

/-- The same properties have values, and the values are alike. -/
def Alike (left right : Properties) : Prop :=
  ∀ property : PropertyId,
    Option.Rel Value.Alike left[property]? right[property]?

theorem Alike.refl (properties : Properties) : properties.Alike properties :=
  fun _ => optionRel_refl Value.Alike.refl _

theorem Alike.symm {left right : Properties} (alike : left.Alike right) :
    right.Alike left :=
  fun property => optionRel_symm (fun _ _ => Value.Alike.symm) (alike property)

theorem Alike.trans
    {left middle right : Properties}
    (first : left.Alike middle)
    (second : middle.Alike right) : left.Alike right := by
  intro property
  refine optionRel_trans ?_ (first property) (second property)
  exact fun _ _ _ leftMiddle middleRight => leftMiddle.trans middleRight

/-- Values that do not conflict with the stored ones leave properties alike
when they are set. -/
theorem alike_setAll
    {properties : Properties}
    {values : List (PropertyId × Value)}
    (agreeing : properties.conflict? values = none) :
    (properties.setAll values).Alike properties := by
  -- Earlier writes replace stored values by values that are alike, not equal,
  -- so the stored values are compared with the original properties throughout.
  have step : ∀ current : Properties, current.Alike properties →
      (current.setAll values).Alike properties := by
    induction values with
    | nil => exact fun current alike => alike
    | cons first rest ih =>
        obtain ⟨property, value⟩ := first
        simp only [conflict?, List.findSome?_cons] at agreeing
        split at agreeing
        · simp at agreeing
        · rename_i equal
          intro current alike
          refine ih agreeing (current.insert property value) ?_
          intro other
          rw [Std.ExtTreeMap.getElem?_insert]
          by_cases same : property = other
          · subst same
            cases found : properties[property]? with
            | none => simp [found] at equal
            | some stored =>
                have storedEqual : stored.equals value = true := by
                  simpa [found] using equal
                simpa using Option.Rel.some
                  (Value.Alike.of_equals storedEqual).symm
          · simpa [same] using alike other
  exact step properties (.refl properties)

/-- Properties alike conflict with the same values. -/
theorem Alike.conflict?_eq
    {left right : Properties}
    (alike : left.Alike right)
    (values : List (PropertyId × Value)) :
    left.conflict? values = right.conflict? values := by
  unfold conflict?
  congr
  funext entry
  have same : (left[entry.1]?).any (·.equals entry.2) =
      (right[entry.1]?).any (·.equals entry.2) := by
    have related := alike entry.1
    generalize left[entry.1]? = stored, right[entry.1]? = other at related ⊢
    cases related with
    | none => rfl
    | some values => exact values.equals_eq entry.2
  simp only [same]

end Properties

end DeltaGraph
