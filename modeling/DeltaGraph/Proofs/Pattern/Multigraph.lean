import DeltaGraph.Proofs.Lists
import DeltaGraph.Proofs.Pattern.Greedy
import Mathlib.Algebra.Ring.Nat

/-!
# The incidence is a multigraph

The incidence of a pattern, be it valid or not, has the variables that the
pattern mentions, in the order of their names, and two ends of each relation:
one at its source, which leads to its target, and one at its target, which leads
back.  Parallel and opposite relations and relations from a variable to itself
keep their own ends.
-/

namespace DeltaGraph

theorem Relation.joins_comm (relation : Relation) (left right : String) :
    relation.joins left right = relation.joins right left :=
  Bool.or_comm _ _

/-- The two ends of a relation, each under the variable that lists it. -/
def Relation.ends
    (relation : Relation)
    (index : Nat) : List (String × RelationEnd) :=
  [(relation.source, ⟨relation.target, false, index⟩),
    (relation.target, ⟨relation.source, true, index⟩)]

theorem Relation.index_of_mem_ends {relation : Relation} {index : Nat}
    {listing : String × RelationEnd} (member : listing ∈ relation.ends index) :
    listing.2.relation = index := by
  rcases List.mem_pair.mp member with rfl | rfl <;> rfl

theorem Relation.nodup_ends (relation : Relation) (index : Nat) :
    (relation.ends index).Nodup := by
  simp [ends]

/-- The ends of all relations of a pattern. -/
def Pattern.ends (pattern : Pattern) : List (String × RelationEnd) :=
  pattern.relations.zipIdx.flatMap fun (relation, index) => relation.ends index

namespace Pattern

variable {pattern : Pattern}

theorem mem_ends {listing : String × RelationEnd} :
    listing ∈ pattern.ends ↔
      ∃ relation, pattern.relations[listing.2.relation]? = some relation ∧
        listing ∈ relation.ends listing.2.relation := by
  simp only [ends, List.mem_flatMap, Prod.exists, List.mem_zipIdx_iff_getElem?]
  constructor
  · rintro ⟨relation, index, found, member⟩
    obtain rfl := Relation.index_of_mem_ends member
    exact ⟨relation, found, member⟩
  · rintro ⟨relation, found, member⟩
    exact ⟨relation, _, found, member⟩

theorem nodup_ends (pattern : Pattern) : pattern.ends.Nodup := by
  refine List.nodup_flatMap.mpr ⟨fun entry _ => entry.1.nodup_ends entry.2, ?_⟩
  refine (pairwise_zipIdx pattern.relations).imp
    fun before listing member laterMember => ?_
  rw [←
    Relation.index_of_mem_ends member, Relation.index_of_mem_ends laterMember]
    at before
  exact Nat.lt_irrefl _ before

theorem length_ends (pattern : Pattern) :
    pattern.ends.length = 2 * pattern.relations.length := by
  rw [ends, List.length_flatMap]
  simp [Relation.ends, Nat.mul_comm]

end Pattern

namespace Incidence

/-- All ends, each under the variable that lists it. -/
def listed (incidence : Incidence) : List (String × RelationEnd) :=
  incidence.names.flatMap fun name => (incidence.endsAt name).map (name, ·)

theorem length_listed (incidence : Incidence) :
    incidence.listed.length = (incidence.names.map incidence.degree).sum := by
  simp only [listed, List.length_flatMap, List.length_map]
  rfl

/-- A variable lists the ends that are under it. -/
theorem map_endsOf (name : String) (relations : List (Relation × Nat)) :
    (endsOf name relations).map (name, ·) =
      (relations.flatMap fun (relation, index) => relation.ends index).filter
        (·.1 = name) := by
  induction relations with
  | nil => rfl
  | cons first rest inductionHypothesis =>
      obtain ⟨relation, index⟩ := first
      rw [endsOf, List.flatMap_cons, ←
        endsOf, List.map_append, inductionHypothesis, List.flatMap_cons,
        List.filter_append]
      by_cases source : relation.source = name <;>
          by_cases target : relation.target = name <;>
        simp [Relation.ends, source, target]

/-- The variables list the ends of all relations, and nothing else. -/
theorem perm_listed (pattern : Pattern) :
    (ofPattern pattern).listed.Perm pattern.ends := by
  have gathered : (ofPattern pattern).listed =
      (ofPattern pattern).names.flatMap fun name =>
        pattern.ends.filter (·.1 = name) := by
    simp only [listed, endsAt_ofPattern, map_endsOf, Pattern.ends]
  have once : (ofPattern pattern).listed.Nodup := by
    rw [gathered]
    refine List.nodup_flatMap.mpr
      ⟨fun name _ => pattern.nodup_ends.filter _, ?_⟩
    refine (nodup_names _).imp fun different listing member laterMember =>
      different ?_
    rw [← of_decide_eq_true (List.mem_filter.mp member).2,
      of_decide_eq_true (List.mem_filter.mp laterMember).2]
  refine (List.perm_ext_iff_of_nodup once pattern.nodup_ends).mpr
    fun listing => ?_
  rw [gathered]
  simp only [List.mem_flatMap, List.mem_filter, decide_eq_true_eq]
  constructor
  · rintro ⟨_, _, member, _⟩
    exact member
  · intro member
    refine ⟨listing.1, ?_, member, rfl⟩
    obtain ⟨relation, found, ends⟩ := Pattern.mem_ends.mp member
    rw [mem_names_iff_mentions]
    refine .inr ⟨relation, List.mem_of_getElem? found, ?_⟩
    rcases List.mem_pair.mp ends with same | same <;> rw [same] <;>
      simp [Relation.touches]

/-- A relation has two ends among those that the variables list. -/
theorem perm_filter_listed
    {pattern : Pattern}
    {index : Nat}
    {relation : Relation}
    (found : pattern.relations[index]? = some relation) :
    ((ofPattern pattern).listed.filter (·.2.relation = index)).Perm
      (relation.ends index) := by
  refine ((perm_listed pattern).filter _).trans ?_
  refine (List.perm_ext_iff_of_nodup (pattern.nodup_ends.filter _)
    (relation.nodup_ends index)).mpr fun listing => ?_
  rw [List.mem_filter, decide_eq_true_eq, Pattern.mem_ends]
  constructor
  · rintro ⟨⟨other, otherFound, member⟩, rfl⟩
    obtain rfl := Option.some.inj (found.symm.trans otherFound)
    exact member
  · intro member
    obtain rfl := Relation.index_of_mem_ends member
    exact ⟨⟨relation, found, member⟩, rfl⟩

theorem adjacent_iff (incidence : Incidence) (left right : String) :
    incidence.adjacent left right = true ↔
      incidence.relationsJoining left right ≠ [] := by
  rw [adjacent, relationsJoining, List.any_eq_true, ne_eq, List.map_eq_nil_iff,
    List.filter_eq_nil_iff]
  push Not
  rfl

/-- An incidence has the variables that a pattern mentions, and two ends of each
of its relations. -/
structure Depicts (incidence : Incidence) (pattern : Pattern) : Prop where
  /-- The order of the names is that of their bytes. -/
  names_ascending :
    incidence.names.Pairwise fun earlier later =>
      textBytes earlier < textBytes later
  mem_names (name : String) : name ∈ incidence.names ↔ pattern.Mentions name
  sum_degrees :
    (incidence.names.map incidence.degree).sum = 2 * pattern.relations.length
  joining_ascending {left right : String} (different : left ≠ right) :
    (incidence.relationsJoining left right).Pairwise (· < ·)
  mem_joining {left right : String} (different : left ≠ right) (index : Nat) :
    index ∈ incidence.relationsJoining left right ↔
      ∃ relation, pattern.relations[index]? = some relation ∧
        relation.joins left right
  joining_comm {left right : String} (different : left ≠ right) :
    incidence.relationsJoining left right =
      incidence.relationsJoining right left
  joining_nonempty {left right : String} (different : left ≠ right) :
    incidence.relationsJoining left right ≠ [] ↔
      incidence.adjacent left right = true
  adjacent_comm {left right : String} (different : left ≠ right) :
    incidence.adjacent left right = incidence.adjacent right left
  /-- Of all ends, two are of the relation: an outgoing one under its source,
  and an incoming one under its target. -/
  two_ends {index : Nat} {relation : Relation}
    (found : pattern.relations[index]? = some relation) :
    (incidence.listed.filter (·.2.relation = index)).Perm
      [(relation.source, ⟨relation.target, false, index⟩),
        (relation.target, ⟨relation.source, true, index⟩)]

/-- The incidence of any pattern depicts it. -/
theorem depicts_pattern (pattern : Pattern) :
    (ofPattern pattern).Depicts pattern := by
  have comm {left right : String} (different : left ≠ right) :
      (ofPattern pattern).relationsJoining left right =
        (ofPattern pattern).relationsJoining right left := by
    rw [relationsJoining_eq_filter different,
      relationsJoining_eq_filter different.symm]
    simp only [Relation.joins_comm _ left right]
  exact {
    names_ascending := (pairwise_names _).imp textBytes_lt
    mem_names := fun _ => mem_names_iff_mentions
    sum_degrees := by
      rw [← length_listed, (perm_listed pattern).length_eq, pattern.length_ends]
    joining_ascending := pairwise_relationsJoining_of_ne
    mem_joining := by
      intro left right different index
      rw [relationsJoining_eq_filter different]
      simp [List.mem_zipIdx_iff_getElem?]
    joining_comm := comm
    joining_nonempty := fun _ => ((ofPattern pattern).adjacent_iff _ _).symm
    adjacent_comm := by
      intro left right different
      rw [Bool.eq_iff_iff, adjacent_iff, adjacent_iff, comm different]
    two_ends := perm_filter_listed }

/-- Parallel, opposite and looping relations, and a variable that is not
declared. -/
example :
    let incidence := ofPattern {
      declared := [⟨"b", none⟩, ⟨"a", none⟩]
      relations :=
        [⟨"a", "b", none, none⟩, ⟨"a", "b", none, none⟩, ⟨"b", "a", none, none⟩,
          ⟨"a", "a", none, none⟩, ⟨"c", "b", none, none⟩] }
    incidence.names.map incidence.degree = [5, 4, 1] ∧
      incidence.relationsJoining "b" "a" = [0, 1, 2] ∧
      incidence.endsAt "b" =
        [⟨"a", true, 0⟩, ⟨"a", true, 1⟩, ⟨"a", false, 2⟩, ⟨"c", true, 4⟩] := by
  decide

end Incidence

end DeltaGraph
