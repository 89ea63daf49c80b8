import DeltaGraph.Pattern
import Mathlib.Tactic.Common

/-!
# Patterns without a fault

What planning may rely on in a pattern that breaks no rule.
-/

namespace DeltaGraph

/-- What the absence of a fault says about relations and predicates. -/
structure Pattern.Valid (pattern : Pattern) : Prop where
  nonempty : pattern.relations ≠ []
  source {relation : Relation} (member : relation ∈ pattern.relations) :
    relation.source ∈ pattern.variableNames
  target {relation : Relation} (member : relation ∈ pattern.relations) :
    relation.target ∈ pattern.variableNames
  ends {relation : Relation} (member : relation ∈ pattern.relations) :
    relation.source ≠ relation.target
  touched {name : String} (declared : name ∈ pattern.variableNames) :
    ∃ relation ∈ pattern.relations, relation.source = name ∨
      relation.target = name
  element {predicate : Predicate} (member : predicate ∈ pattern.predicates)
      {reference : PropertyReference}
      (mentioned : reference ∈ predicate.references) :
    reference.element ∈ pattern.variableNames ∨
      reference.element ∈ pattern.relationNames

namespace Relation

theorem ends_of_fault?_eq_none
    {relation : Relation}
    {declared earlier : List String}
    {index : Nat}
    (faultless : relation.fault? declared earlier index = none) :
    relation.source ∈ declared ∧ relation.target ∈ declared ∧
      relation.source ≠ relation.target := by
  simp only [fault?, Option.orElse_eq_orElse, Option.orElse_eq_or,
    Option.or_eq_none_iff, List.findSome?_eq_none_iff, List.mem_cons,
    List.not_mem_nil, or_false, forall_eq_or_imp, forall_eq, ite_eq_left_iff,
    ite_eq_right_iff, reduceCtorEq, imp_false, not_not, List.contains_iff_mem]
    at faultless
  obtain ⟨⟨source, target⟩, different, _⟩ := faultless
  exact ⟨source, target, different⟩

theorem fault?_of_firstFault?_eq_none
    {relations : List Relation}
    {declared earlier : List String}
    {index : Nat}
    (faultless : firstFault? declared earlier index relations = none)
    {relation : Relation}
    (member : relation ∈ relations) :
    ∃ others later, relation.fault? declared others later = none := by
  induction relations generalizing earlier index with
  | nil => cases member
  | cons first rest inductionHypothesis =>
      simp only [firstFault?, Option.orElse_eq_orElse, Option.orElse_eq_or,
        Option.or_eq_none_iff] at faultless
      rcases List.mem_cons.mp member with rfl | later
      · exact ⟨earlier, index, faultless.1⟩
      · exact inductionHypothesis faultless.2 later

end Relation

namespace Pattern

/-- A pattern that breaks no rule is valid. -/
theorem valid_of_fault?
    {pattern : Pattern}
    (faultless : pattern.fault? = none) :
    pattern.Valid := by
  simp only [fault?, Option.orElse_eq_orElse, Option.orElse_eq_or,
    Option.or_eq_none_iff, Option.map_eq_none_iff, ite_eq_right_iff,
    reduceCtorEq, imp_false] at faultless
  obtain ⟨nonempty, relations, _, isolated, unknown⟩ := faultless
  have ends {relation : Relation} (member : relation ∈ pattern.relations) :
      relation.source ∈ pattern.variableNames ∧
        relation.target ∈ pattern.variableNames ∧
        relation.source ≠ relation.target := by
    obtain ⟨others, later, alone⟩ :=
      Relation.fault?_of_firstFault?_eq_none relations member
    exact Relation.ends_of_fault?_eq_none alone
  refine ⟨by simpa using nonempty, fun member => (ends member).1,
    fun member => (ends member).2.1, fun member => (ends member).2.2, ?_, ?_⟩
  · intro name declared
    obtain ⟨first, found, rfl⟩ := List.mem_map.mp declared
    have used := List.find?_eq_none.mp isolated first found
    simpa [Relation.touches, or_iff_not_imp_left] using used
  · intro predicate member reference mentioned
    have known := List.findSome?_eq_none_iff.mp unknown reference
      (List.mem_flatMap.mpr ⟨predicate, member, mentioned⟩)
    simpa [or_iff_not_imp_left] using known

theorem fault?_of_validate
    {pattern : Pattern}
    (valid : pattern.validate = .ok ()) :
    pattern.fault? = none := by
  unfold validate at valid
  split at valid
  · assumption
  · cases valid

end Pattern

end DeltaGraph
