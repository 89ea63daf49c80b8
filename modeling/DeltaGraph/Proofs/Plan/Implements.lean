import DeltaGraph.Plan.OfPattern
import DeltaGraph.Proofs.Catalog
import DeltaGraph.Proofs.Execution.WellFormed

/-!
# Plans that implement a pattern

A plan implements a pattern if it is well-formed and its parts render those of
the pattern: slots stand for variables, relations are resolved between the slots
of their ends, and names of types and keys are numbered as in the catalog.  The
version that a relation is read in is left open.
-/

namespace DeltaGraph

/-- The place is that of the variable with the name, or else of the relation. -/
def Place.StandsFor
    (pattern : Pattern)
    (order : List String)
    (name : String) : Place → Prop
  | .vertex slot => order[slot]? = some name
  | .edge index =>
      name ∉ pattern.variableNames ∧
        pattern.relationNames.idxOf? name = some index

/-- The relation at an index is resolved between its ends, in the version that
it is read in. -/
structure EdgeLookup.Renders
    (lookup : EdgeLookup)
    (order : List String)
    (catalog : Catalog)
    (reading : Nat → Version)
    (relation : Relation)
    (index : Nat) : Prop where
  source : order[lookup.source]? = some relation.source
  target : order[lookup.target]? = some relation.target
  type : catalog.Numbers relation.type lookup.type
  version : lookup.version = reading index

/-- The right-hand side of a condition is that of a predicate. -/
def ConditionOperand.Renders
    (pattern : Pattern)
    (order : List String)
    (catalog : Catalog) :
    Operand → ConditionOperand → Prop
  | .property reference, .property place number =>
      place.StandsFor pattern order reference.element ∧
        catalog.NumbersKey reference.key number
  | .literal value, .literal other => other = value
  | _, _ => False

/-- The condition is a predicate over places. -/
structure Condition.Renders
    (condition : Condition)
    (pattern : Pattern)
    (order : List String)
    (catalog : Catalog)
    (predicate : Predicate) : Prop where
  place : condition.place.StandsFor pattern order predicate.left.element
  property : catalog.NumbersKey predicate.left.key condition.property
  comparison : condition.comparison = predicate.comparison
  right :
    ConditionOperand.Renders pattern order catalog predicate.right
      condition.right

/-- The plan is a well-formed rendering of the pattern. -/
structure Plan.Implements (plan : Plan) (pattern : Pattern) (catalog : Catalog)
    (reading : Nat → Version) : Prop where
  wellFormed : plan.WellFormed
  different : plan.order.Nodup
  mem_order (name : String) : name ∈ plan.order ↔ name ∈ pattern.variableNames
  types :
    List.Forall₂ (fun name type => catalog.Numbers (pattern.typeOf? name) type)
    plan.order plan.types
  lookups : List.Forall₂ (fun entry lookup =>
    lookup.Renders plan.order catalog reading entry.1 entry.2)
      pattern.relations.zipIdx plan.lookups
  columns : List.Forall₂ (fun name column => plan.order[column]? = some name)
    pattern.variableNames plan.columns
  conditions : List.Forall₂ (fun predicate condition =>
    condition.Renders pattern plan.order catalog predicate) pattern.predicates
      plan.conditions

/-! ## A growing catalog changes nothing -/

section

variable {catalog later : Catalog} {pattern : Pattern} {order : List String}

theorem EdgeLookup.Renders.mono
    (grows : catalog.Extends later)
    {lookup : EdgeLookup}
    {reading : Nat → Version}
    {relation : Relation}
    {index : Nat}
    (renders : lookup.Renders order catalog reading relation index) :
    lookup.Renders order later reading relation index :=
  ⟨renders.source, renders.target, renders.type.mono grows, renders.version⟩

theorem ConditionOperand.Renders.mono
    (grows : catalog.Extends later)
    {operand : Operand}
    {right : ConditionOperand}
    (renders : Renders pattern order catalog operand right) :
    Renders pattern order later operand right := by
  cases operand <;> cases right
  case property.property => exact ⟨renders.1, renders.2.mono grows⟩
  case property.literal => cases renders
  case literal.property => cases renders
  case literal.literal => exact renders

/-- A condition that stands for a predicate goes on doing so while the catalog
grows. -/
theorem Condition.Renders.mono
    (grows : catalog.Extends later)
    {condition : Condition}
    {predicate : Predicate}
    (renders : condition.Renders pattern order catalog predicate) :
    condition.Renders pattern order later predicate :=
  ⟨renders.place, renders.property.mono grows, renders.comparison,
    renders.right.mono grows⟩

/-- A plan that implements a pattern goes on doing so while the catalog
grows. -/
theorem Plan.Implements.mono
    (grows : catalog.Extends later)
    {plan : Plan}
    {reading : Nat → Version}
    (implements : plan.Implements pattern catalog reading) :
    plan.Implements pattern later reading where
  wellFormed := implements.wellFormed
  different := implements.different
  mem_order := implements.mem_order
  types := implements.types.imp fun _ _ numbers => numbers.mono grows
  lookups := implements.lookups.imp fun _ _ renders => renders.mono grows
  columns := implements.columns
  conditions := implements.conditions.imp fun _ _ renders => renders.mono grows

end

end DeltaGraph
