import Std.Data.ExtTreeMap
import Std.Data.ExtTreeSet

/-!
# Identifiers

Vertices, edges, types and property keys are numbered, each kind in a sequence
of its own.  Identifiers of one kind are ordered by their numbers, and the
order is lawful, so that they can be keys of ordered maps.
-/

namespace DeltaGraph

/-- The kinds of things that carry a number. -/
inductive Numbered
  | vertex
  | edge
  | type
  | property
  deriving DecidableEq

/-- The number of one thing of the given kind. -/
structure Id (kind : Numbered) where
  number : Nat
  deriving DecidableEq, Repr

abbrev VertexId := Id .vertex

abbrev EdgeId := Id .edge

abbrev TypeId := Id .type

abbrev PropertyId := Id .property

namespace Id

variable {kind : Numbered}

instance : Inhabited (Id kind) := ⟨⟨0⟩⟩

instance : Ord (Id kind) := ⟨compareOn Id.number⟩

theorem compare_def (left right : Id kind) :
    compare left right = compare left.number right.number := rfl

instance : Std.TransOrd (Id kind) :=
  inferInstanceAs (Std.TransCmp (compareOn Id.number))

instance : Std.LawfulEqOrd (Id kind) where
  eq_of_compare {left right} equal := by
    rw [compare_def] at equal
    cases left
    cases right
    exact congrArg Id.mk (Std.LawfulEqOrd.eq_of_compare equal)

instance : LT (Id kind) := ⟨fun left right => left.number < right.number⟩

instance : LE (Id kind) := ⟨fun left right => left.number ≤ right.number⟩

instance (left right : Id kind) : Decidable (left < right) :=
  inferInstanceAs (Decidable (left.number < right.number))

instance (left right : Id kind) : Decidable (left ≤ right) :=
  inferInstanceAs (Decidable (left.number ≤ right.number))

theorem lt_def {left right : Id kind} :
    left < right ↔ left.number < right.number :=
  Iff.rfl

theorem le_def {left right : Id kind} :
    left ≤ right ↔ left.number ≤ right.number :=
  Iff.rfl

@[ext] theorem ext {left right : Id kind} (equal : left.number = right.number) :
    left = right := by
  cases left
  cases right
  exact congrArg Id.mk equal

/-- The decimal digits of the number. -/
def text (id : Id kind) : String := toString id.number

/-- The members of a list in ascending order, each once. -/
def ascending (ids : List (Id kind)) : List (Id kind) :=
  (Std.ExtTreeSet.ofList ids).toList

@[simp] theorem mem_ascending {id : Id kind} {ids : List (Id kind)} :
    id ∈ ascending ids ↔ id ∈ ids := by
  simp [ascending, Std.ExtTreeSet.mem_ofList]

/-- The ascending members are strictly ascending. -/
theorem pairwise_ascending (ids : List (Id kind)) :
    (ascending ids).Pairwise (· < ·) := by
  refine Std.ExtTreeSet.ordered_toList.imp fun {left right} less => ?_
  rw [compare_def, Nat.compare_eq_lt] at less
  exact less

end Id

/-- The type of elements that were given none. -/
def TypeId.default : TypeId := ⟨0⟩

end DeltaGraph
