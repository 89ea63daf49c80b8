import DeltaGraph.Proofs.Pattern.Order
import DeltaGraph.Proofs.Plan.Implements

/-!
# The stages of a plan

Each relation is read by the rule of one stage, the one that binds the later of
its ends.
-/

namespace DeltaGraph

namespace PlanContext

/-- What the context of a pattern holds, the types being numbered as in the
catalog. -/
structure Of
    (context : PlanContext)
    (pattern : Pattern)
    (catalog : Catalog) : Prop where
  about : context.pattern = pattern
  incidence : context.incidence = .ofPattern pattern
  relationNames : context.relationNames = pattern.relationNames
  relationTypes :
    List.Forall₂ (fun relation type => catalog.Numbers relation.type type)
    pattern.relations context.relationTypes

/-- The context of a pattern stays its context while the catalog grows. -/
theorem Of.mono
    {context : PlanContext}
    {pattern : Pattern}
    {catalog later : Catalog}
    (of : context.Of pattern catalog)
    (grows : catalog.Extends later) :
    context.Of pattern later :=
  ⟨of.about, of.incidence, of.relationNames,
    of.relationTypes.imp fun _ _ numbers => numbers.mono grows⟩

/-- The context knows the number of the type of each relation. -/
theorem Of.numbers
    {context : PlanContext}
    {pattern : Pattern}
    {catalog : Catalog}
    (of : context.Of pattern catalog)
    {index : Nat}
    {relation : Relation}
    (found : pattern.relations[index]? = some relation) :
    catalog.Numbers relation.type (context.relationType? index) := by
  obtain ⟨below, rfl⟩ := List.getElem?_eq_some_iff.mp found
  have typed : index < context.relationTypes.length :=
    of.relationTypes.length_eq ▸ below
  rw [relationType?, List.getElem?_eq_getElem typed]
  exact of.relationTypes.get below typed

/-- Of the pattern, the stages depend on the relations only. -/
theorem stages_of_relations
    (context : PlanContext)
    {pattern : Pattern}
    (relations : pattern.relations = context.pattern.relations)
    (difference : Option Difference)
    (readAs : Nat → Except Error Version)
    (bound targets : List String) :
    PlanContext.stages { context with pattern } difference readAs bound
      targets =
      context.stages difference readAs bound targets := by
  obtain ⟨_, _, _⟩ := pattern
  cases relations
  induction targets generalizing bound with
  | nil => rfl
  | cons target rest inductionHypothesis =>
      rw [stages, stages, inductionHypothesis]
      rfl

/-- Reading relations in the versions given. -/
structure Reads (pattern : Pattern) (difference : Option Difference)
    (readAs : Nat → Except Error Version) (reading : Nat → Version) : Prop where
  resolved {index : Nat} {relation : Relation}
    (found : pattern.relations[index]? = some relation) :
    resolvedVersion difference readAs index = .ok (reading index)

/-- The rules of one variable, read in the versions given. -/
def rulesOf
    (context : PlanContext)
    (difference : Option Difference)
    (reading : Nat → Version)
    (bound : List String)
    (target : String) : Stage :=
  context.differenceRule difference bound ++
    (context.readings difference bound target).map fun read =>
      ⟨read.slot, read.direction, reading read.relation,
        context.relationType? read.relation⟩

/-- The relation of the difference, if the second variable is the next to be
bound. -/
def leading (difference : Option Difference) (bound : List String) : List Nat :=
  match difference with
  | some start => if bound.length = 1 then [start.relation] else []
  | none => []

/-- The relations that the rules of one variable read, in the order of the
rules. -/
def placedAt
    (context : PlanContext)
    (difference : Option Difference)
    (bound : List String)
    (target : String) : List Nat :=
  leading difference bound ++
    (context.readings difference bound target).map Reading.relation

/-- The stages of the variables that follow the bound ones. -/
def stagesOf (context : PlanContext) (difference : Option Difference)
    (reading : Nat → Version) (bound : List String) : List String → List Stage
  | [] => []
  | target :: rest =>
      context.rulesOf difference reading bound target ::
        context.stagesOf difference reading (bound ++ [target]) rest

theorem length_stagesOf (context : PlanContext) (difference : Option Difference)
    (reading : Nat → Version) (bound targets : List String) :
    (context.stagesOf difference reading bound targets).length =
      targets.length := by
  induction targets generalizing bound with
  | nil => rfl
  | cons target rest inductionHypothesis => simp [stagesOf, inductionHypothesis]

theorem getElem?_stagesOf
    (context : PlanContext)
    (difference : Option Difference)
    (reading : Nat → Version)
    (bound targets : List String)
    (index : Nat) :
    (context.stagesOf difference reading bound targets)[index]? =
      (targets[index]?).map fun target =>
        context.rulesOf difference reading (bound ++ targets.take index)
          target := by
  induction targets generalizing bound index with
  | nil => rfl
  | cons target rest inductionHypothesis =>
      cases index with
      | zero => simp [stagesOf]
      | succ index => simp [stagesOf, inductionHypothesis]

variable {context : PlanContext} {pattern : Pattern} {catalog : Catalog}
  {difference : Option Difference} {readAs : Nat → Except Error Version}
  {reading : Nat → Version}

/-- The relations read at a stage are those that join its variable to a bound
one. -/
theorem mem_readings
    (of : context.Of pattern catalog)
    {bound : List String}
    {target : String}
    (read : Reading) :
    read ∈ context.readings difference bound target ↔
      ∃ name relation, bound[read.slot]? = some name ∧
        pattern.relations[read.relation]? = some relation ∧
        (relation.source = name ∧ relation.target = target ∨
          relation.target = name ∧ relation.source = target) ∧
        (∀ start, difference = some start → start.relation ≠ read.relation) ∧
        read.direction = context.directionFrom name read.relation := by
  obtain ⟨slot, direction, index⟩ := read
  simp only [readings, of.incidence, List.mem_flatMap, Prod.exists,
    List.mem_zipIdx_iff_getElem?, List.mem_map, List.mem_filter,
    Incidence.mem_relationsJoining, Reading.mk.injEq, Option.all_eq_true,
    decide_eq_true_eq]
  constructor
  · rintro ⟨name, _, bound, _, ⟨⟨relation, found, joins⟩, other⟩, rfl, rfl, rfl⟩
    exact ⟨name, relation, bound, found, joins, other, rfl⟩
  · rintro ⟨name, relation, bound, found, joins, other, rfl⟩
    exact ⟨name, slot, bound, index, ⟨⟨relation, found, joins⟩, other⟩, rfl,
      rfl, rfl⟩

theorem stage_eq
    (of : context.Of pattern catalog)
    (reads : Reads pattern difference readAs reading)
    (bound : List String)
    (target : String) :
    context.stage difference readAs bound target =
      .ok (context.rulesOf difference reading bound target) := by
  have rules := mapM_of_forall_eq (context.readings difference bound target)
    (fun read => do
      let version ← readAs read.relation
      return { slot := read.slot, direction := read.direction, version,
               type := context.relationType? read.relation : Rule })
    (fun read =>
      ⟨read.slot, read.direction, reading read.relation,
        context.relationType? read.relation⟩)
    fun read member => by
      obtain ⟨_, _, _, found, _, other, _⟩ := (mem_readings of read).mp member
      have resolved := reads.resolved found
      have version : readAs read.relation = .ok (reading read.relation) := by
        cases difference with
        | none => exact resolved
        | some start => simpa [resolvedVersion, other start rfl] using resolved
      rw [version]
      rfl
  rw [stage, rules]
  rfl

/-- Laying out the stages of a plan succeeds, with the rules of each target in
order. -/
theorem stages_eq
    (of : context.Of pattern catalog)
    (reads : Reads pattern difference readAs reading)
    (bound targets : List String) :
    context.stages difference readAs bound targets =
      .ok (context.stagesOf difference reading bound targets) := by
  induction targets generalizing bound with
  | nil => rfl
  | cons target rest inductionHypothesis =>
      rw [stages, stage_eq of reads, inductionHypothesis]
      rfl

end PlanContext

end DeltaGraph
