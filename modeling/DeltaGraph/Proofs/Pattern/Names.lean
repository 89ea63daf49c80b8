import DeltaGraph.Pattern.Declaration
import DeltaGraph.Proofs.Effects
import DeltaGraph.Proofs.Pattern.Valid
import Mathlib.Data.List.Nodup
import Std.Data.String.ToNat

/-!
# Names of variables and relations

In a pattern that breaks no rule the relations have different names, given or
generated.  In a pattern that is made of declarations the variables have
different names too.  A name that was given to a relation is no variable's name,
but a generated name may be: this is the only way in which a variable and a
relation come to have the same name.
-/

namespace DeltaGraph

namespace Relation

theorem generatedName_injective : Function.Injective generatedName :=
  fun _ _ same =>
  Nat.repr_inj.mp ((String.append_left_inj _).mp same)

/-- The name of a relation is given to it, or is generated from a number. -/
theorem mem_names {ordinal : Nat} {relations : List Relation} {name : String}
    (member : name ∈ names ordinal relations) :
    name ∈ relations.filterMap Relation.name ∨
      (∃ number, ordinal ≤ number ∧ name = generatedName number) ∧
        ∃ relation, (relation, name) ∈ relations.zip (names ordinal relations) ∧
          relation.name = none := by
  induction relations generalizing ordinal with
  | nil => cases member
  | cons first rest inductionHypothesis =>
      cases given : first.name with
      | some firstName =>
          rw [names, given, List.mem_cons] at member
          rw [names, given, List.filterMap_cons_some given, List.mem_cons]
          rcases member with same | later
          · exact .inl (.inl same)
          · rcases inductionHypothesis later
              with givenLater | ⟨generated, relation, entry, unnamed⟩
            · exact .inl (.inr givenLater)
            · exact .inr ⟨generated, relation, .tail _ entry, unnamed⟩
      | none =>
          rw [names, given, List.mem_cons] at member
          rw [names, given, List.filterMap_cons_none given]
          rcases member with rfl | later
          · exact .inr
              ⟨⟨ordinal, Nat.le_refl ordinal, rfl⟩, first, .head _, given⟩
          · rcases inductionHypothesis later with
              givenLater | ⟨⟨number, bound, same⟩, relation, entry, unnamed⟩
            · exact .inl givenLater
            · exact .inr
                ⟨⟨number, by omega, same⟩, relation, .tail _ entry, unnamed⟩

/-- A relation has the name that it was given, if it was given one. -/
theorem getElem?_names
    {ordinal : Nat}
    {relations : List Relation}
    {index : Nat}
    {name : String}
    (found : (names ordinal relations)[index]? = some name) :
    ∃ relation, relations[index]? = some relation ∧
      (relation.name = some name ∨ relation.name = none) := by
  induction relations generalizing ordinal index with
  | nil => cases found
  | cons first rest inductionHypothesis =>
      cases given : first.name with
      | some firstName =>
          rw [names, given] at found
          cases index with
          | zero =>
              cases found
              exact ⟨first, rfl, .inl given⟩
          | succ index => exact inductionHypothesis found
      | none =>
          rw [names, given] at found
          cases index with
          | zero => exact ⟨first, rfl, .inr given⟩
          | succ index => exact inductionHypothesis found

/-- Relations have different names if the given names differ from each other and
from the generated ones. -/
theorem nodup_names
    {ordinal : Nat}
    {relations : List Relation}
    {given : List String}
    (within : ∀ name ∈ relations.filterMap Relation.name, name ∈ given)
    (different : (relations.filterMap Relation.name).Nodup)
    (apart : ∀ relation name,
      (relation, name) ∈ relations.zip (names ordinal relations) →
        relation.name = none → name ∉ given) :
    (names ordinal relations).Nodup := by
  induction relations generalizing ordinal with
  | nil => exact List.nodup_nil
  | cons first rest inductionHypothesis =>
      cases found : first.name with
      | some firstName =>
          rw [List.filterMap_cons_some found] at within different
          rw [names, found] at apart ⊢
          obtain ⟨fresh, differentRest⟩ := List.nodup_cons.mp different
          have apartRest :=
            fun relation name entry => apart relation name (.tail _ entry)
          refine List.nodup_cons.mpr ⟨fun member => ?_, inductionHypothesis
            (fun name member => within name (.tail _ member)) differentRest
            apartRest⟩
          rcases mem_names member
            with givenLater | ⟨_, relation, entry, unnamed⟩
          · exact fresh givenLater
          · exact apartRest relation firstName entry unnamed
              (within firstName (.head _))
      | none =>
          rw [List.filterMap_cons_none found] at within different
          rw [names, found] at apart ⊢
          have apartRest :=
            fun relation name entry => apart relation name (.tail _ entry)
          refine List.nodup_cons.mpr ⟨fun member => ?_,
            inductionHypothesis within different apartRest⟩
          rcases mem_names member with givenLater | ⟨⟨number, bound, same⟩, _⟩
          · exact apart first _ (.head _) found (within _ givenLater)
          · have equal := generatedName_injective same
            omega

/-- A name that a relation is given without a fault is new. -/
theorem given_of_fault?
    {relation : Relation}
    {declared earlier : List String}
    {index : Nat}
    (faultless : relation.fault? declared earlier index = none)
    {name : String}
    (given : relation.name = some name) :
    name ∉ declared ∧ name ∉ earlier := by
  simp only [fault?, Option.orElse_eq_orElse, Option.orElse_eq_or,
    Option.or_eq_none_iff] at faultless
  obtain ⟨_, _, own⟩ := faultless
  rw [given, Option.bind_some] at own
  split at own
  · cases own
  · rename_i undeclared
    split at own
    · cases own
    · rename_i fresh
      exact ⟨mt List.contains_iff_mem.mpr undeclared,
        mt List.contains_iff_mem.mpr fresh⟩

theorem given_of_firstFault?
    {relations : List Relation}
    {declared earlier : List String}
    {index : Nat}
    (faultless : firstFault? declared earlier index relations = none) :
    (relations.filterMap Relation.name).Nodup ∧
      ∀ name ∈ relations.filterMap Relation.name, name ∉ declared ∧
        name ∉ earlier := by
  induction relations generalizing earlier index with
  | nil => exact ⟨List.nodup_nil, fun _ member => by cases member⟩
  | cons first rest inductionHypothesis =>
      simp only [firstFault?, Option.orElse_eq_orElse, Option.orElse_eq_or,
        Option.or_eq_none_iff] at faultless
      obtain ⟨different, fresh⟩ := inductionHypothesis faultless.2
      cases given : first.name with
      | none =>
          rw [List.filterMap_cons_none given]
          rw [given, Option.toList_none, List.append_nil] at fresh
          exact ⟨different, fresh⟩
      | some firstName =>
          rw [List.filterMap_cons_some given, List.nodup_cons,
            List.forall_mem_cons]
          rw [given, Option.toList_some] at fresh
          simp only [List.mem_append, List.mem_singleton, not_or] at fresh
          refine ⟨⟨fun member => (fresh firstName member).2.2 rfl, different⟩,
            given_of_fault? faultless.1 given, fun name member => ?_⟩
          exact ⟨(fresh name member).1, (fresh name member).2.1⟩

end Relation

namespace Pattern

/-- Two relations without a fault have different names, and a name that was
given to one of them is no variable's name. -/
theorem nodup_relationNames
    {pattern : Pattern}
    (faultless : pattern.fault? = none) :
    pattern.relationNames.Nodup ∧
      ∀ name ∈ pattern.givenNames, name ∉ pattern.variableNames := by
  simp only [fault?, Option.orElse_eq_orElse, Option.orElse_eq_or,
    Option.or_eq_none_iff, Option.map_eq_none_iff] at faultless
  obtain ⟨_, relations, unclashing, _⟩ := faultless
  obtain ⟨different, fresh⟩ := Relation.given_of_firstFault? relations
  refine ⟨Relation.nodup_names (fun _ member => member) different ?_,
    fun name member => (fresh name member).1⟩
  intro relation name entry unnamed member
  have found := List.findSome?_eq_none_iff.mp unclashing (relation, name) entry
  simp [unnamed, member, givenNames] at found

/-- A variable has the name that is generated for a relation. -/
def HidesRelation (pattern : Pattern) : Prop :=
  ∃ (index : Nat) (relation : Relation) (name : String),
    pattern.relations[index]? = some relation ∧ relation.name = none ∧
      pattern.relationNames[index]? = some name ∧ name ∈ pattern.variableNames

/-- A generated name is the only name that a variable and a relation can have in
common. -/
theorem nodup_names_iff {pattern : Pattern} (faultless : pattern.fault? = none)
    (different : pattern.variableNames.Nodup) :
    (pattern.variableNames ++ pattern.relationNames).Nodup ↔
      ¬ pattern.HidesRelation := by
  obtain ⟨relationsDifferent, apart⟩ := nodup_relationNames faultless
  rw [List.nodup_append']
  constructor
  · rintro ⟨_, _, disjoint⟩ ⟨index, _, name, _, _, named, declared⟩
    exact disjoint declared (List.mem_of_getElem? named)
  · intro shown
    refine ⟨different, relationsDifferent, fun name declared member => ?_⟩
    obtain ⟨index, named⟩ := List.mem_iff_getElem?.mp member
    obtain ⟨relation, found, given | unnamed⟩ := Relation.getElem?_names named
    · have inGiven :=
        List.mem_filterMap.mpr ⟨relation, List.mem_of_getElem? found, given⟩
      exact apart name inGiven declared
    · exact shown ⟨index, relation, name, found, unnamed, named, declared⟩

/-! ## Patterns that are made of declarations -/

/-- An appearance of a variable declares it, or gives it a type that it does not
have. -/
theorem exists_of_declareVariable
    {endpoint : Endpoint}
    {declared later : List PatternVariable}
    (declares : declareVariable endpoint declared = .ok later) :
    endpoint.name ∉ declared.map PatternVariable.name ∧
        later = declared ++ [⟨endpoint.name, endpoint.type⟩] ∨
      ∃ before type after, declared = before ++ ⟨endpoint.name, type⟩ :: after ∧
        (∀ first ∈ type, ∀ second ∈ endpoint.type, first = second) ∧
        later = before ++ ⟨endpoint.name, type.or endpoint.type⟩ :: after := by
  induction declared generalizing later with
  | nil =>
      cases declares
      exact .inl ⟨List.not_mem_nil, rfl⟩
  | cons first rest inductionHypothesis =>
      obtain ⟨name, type⟩ := first
      rw [declareVariable] at declares
      split at declares
      · rename_i same
        cases same
        refine .inr ⟨[], type, rest, rfl, ?_⟩
        split at declares
        · rename_i earlier second typed given
          cases typed
          split at declares
          · rename_i same
            cases declares
            simp [given, same]
          · cases declares
        · rename_i second typed given
          cases typed
          cases declares
          simp [given]
        · rename_i given
          cases declares
          simp [given]
      · rename_i other
        cases deeper : declareVariable endpoint rest with
        | error fault =>
            rw [deeper] at declares
            cases declares
        | ok more =>
            rw [deeper] at declares
            cases declares
            rcases inductionHypothesis deeper with
              ⟨fresh, rfl⟩ | ⟨before, earlier, after, rfl, agree, rfl⟩
            · exact .inl
                ⟨List.not_mem_cons_of_ne_of_not_mem (Ne.symm other) fresh, rfl⟩
            · exact .inr
                ⟨⟨name, type⟩ :: before, earlier, after, rfl, agree, rfl⟩

/-- An appearance of a variable is in conflict with the type that the variable
has. -/
theorem exists_of_declareVariable_error
    {endpoint : Endpoint}
    {declared : List PatternVariable}
    {fault : PlanFault}
    (fails : declareVariable endpoint declared = .error fault) :
    ∃ earlier later, ⟨endpoint.name, some earlier⟩ ∈ declared ∧
      endpoint.type = some later ∧
      earlier ≠ later ∧
      fault = .conflictingTypes endpoint.name earlier later := by
  induction declared with
  | nil => cases fails
  | cons first rest inductionHypothesis =>
      obtain ⟨name, type⟩ := first
      rw [declareVariable] at fails
      split at fails
      · rename_i same
        cases same
        split at fails
        · rename_i earlier later typed given
          cases typed
          split at fails
          · cases fails
          · rename_i different
            cases fails
            exact ⟨earlier, later, .head _, given, different, rfl⟩
        · cases fails
        · cases fails
      · cases deeper : declareVariable endpoint rest with
        | ok more =>
            rw [deeper] at fails
            cases fails
        | error found =>
            rw [deeper] at fails
            cases fails
            obtain ⟨earlier, later, member, rest⟩ := inductionHypothesis deeper
            exact ⟨earlier, later, .tail _ member, rest⟩

/-- An appearance of a variable declares it, if it is new. -/
theorem names_declareVariable
    {endpoint : Endpoint}
    {declared later : List PatternVariable}
    (declares : declareVariable endpoint declared = .ok later) :
    later.map PatternVariable.name = declared.map PatternVariable.name ∨
      endpoint.name ∉ declared.map PatternVariable.name ∧
        later.map PatternVariable.name =
          declared.map PatternVariable.name ++ [endpoint.name] := by
  rcases exists_of_declareVariable declares with
    ⟨fresh, rfl⟩ | ⟨before, type, after, rfl, _, rfl⟩
  · exact .inr ⟨fresh, by rw [List.map_append, List.map_singleton]⟩
  · exact .inl
      (by rw [List.map_append, List.map_append, List.map_cons, List.map_cons])

theorem nodup_declareVariable
    {endpoint : Endpoint}
    {declared later : List PatternVariable}
    (different : (declared.map PatternVariable.name).Nodup)
    (declares : declareVariable endpoint declared = .ok later) :
    (later.map PatternVariable.name).Nodup := by
  rcases names_declareVariable declares with same | ⟨fresh, added⟩
  · rwa [same]
  · rw [added, ← List.concat_eq_append]
    exact different.concat fresh

theorem nodup_declare
    {pattern later : Pattern}
    {declaration : Declaration}
    (different : pattern.variableNames.Nodup)
    (declares : pattern.declare declaration = .ok later) :
    later.variableNames.Nodup := by
  cases declaration with
  | predicate predicate =>
      cases declares
      exact different
  | relation source target type name =>
      rw [declare] at declares
      obtain ⟨middle, first, declaresRest⟩ := exists_of_bind_eq_ok declares
      obtain ⟨declared, second, made⟩ := exists_of_bind_eq_ok declaresRest
      cases made
      exact nodup_declareVariable (nodup_declareVariable different first) second

/-- The variables of a pattern that is made of declarations have different
names. -/
theorem nodup_foldlM_declare
    {declarations : List Declaration}
    {pattern later : Pattern}
    (different : pattern.variableNames.Nodup)
    (declares : declarations.foldlM declare pattern = .ok later) :
    later.variableNames.Nodup := by
  induction declarations generalizing pattern with
  | nil =>
      cases declares
      exact different
  | cons first rest inductionHypothesis =>
      rw [List.foldlM_cons] at declares
      obtain ⟨next, declared, declaresRest⟩ := exists_of_bind_eq_ok declares
      exact inductionHypothesis (nodup_declare different declared) declaresRest

theorem of_ofDeclarations {declarations : List Declaration} {pattern : Pattern}
    (built : ofDeclarations declarations = .ok pattern) :
    pattern.variableNames.Nodup ∧ pattern.validate = .ok () := by
  rw [ofDeclarations] at built
  obtain ⟨found, declared, checked⟩ := exists_of_bind_eq_ok built
  obtain ⟨_, valid, made⟩ := exists_of_bind_eq_ok checked
  cases made
  have none : ({} : Pattern).variableNames.Nodup := List.nodup_nil
  exact ⟨nodup_foldlM_declare none declared, valid⟩

end Pattern

end DeltaGraph
