import DeltaGraph.Catalog
import DeltaGraph.Pattern.Order
import DeltaGraph.Plan
import DeltaGraph.Query

/-!
# Plans of patterns

Every relation of a pattern becomes one rule, placed at the stage that binds
the later of its ends and reading from the earlier one.  The relation that a
delta plan starts from is read in a difference version by the first rule of
all.  Names of types and property keys are interned on the way: the types of
the relations, then the keys of the predicates, then the types of the
variables.
-/

namespace DeltaGraph

/-- Planning interns names, and may fail. -/
abbrev Planning := ExceptT Error (StateM Catalog)

/-- What all plans of one pattern share. -/
structure PlanContext where
  pattern : Pattern
  incidence : Incidence
  relationNames : List String
  relationTypes : List (Option TypeId)

/-- The relation that a delta plan starts from, and the version it is read
in. -/
structure Difference where
  relation : Nat
  version : Version
  deriving DecidableEq

/-- A relation that is read from a bound vertex. -/
structure Reading where
  slot : Nat
  direction : Direction
  relation : Nat
  deriving DecidableEq

namespace PlanContext

/-- The context of a pattern that breaks no rule. -/
def ofPattern (pattern : Pattern) : Planning PlanContext := do
  match pattern.fault? with
  | some fault => throw (.plan fault)
  | none =>
      let relationTypes ← pattern.relations.mapM fun relation =>
        Catalog.internType? relation.type
      return {
        pattern
        incidence := .ofPattern pattern
        relationNames := pattern.relationNames
        relationTypes }

/-- The type of a relation. -/
def relationType? (context : PlanContext) (relation : Nat) : Option TypeId :=
  (context.relationTypes[relation]?).join

/-- A relation is followed forward from its source. -/
def directionFrom
    (context : PlanContext)
    (name : String)
    (relation : Nat) : Direction :=
  if (context.pattern.relations[relation]?).any (·.source == name) then .forward
  else .backward

/-- The relations other than the difference that join a variable to the bound
ones, by the slot of the bound end and then in order of declaration. -/
def readings (context : PlanContext) (difference : Option Difference)
    (bound : List String) (target : String) : List Reading :=
  bound.zipIdx.flatMap fun (name, slot) =>
    ((context.incidence.relationsJoining name target).filter fun relation =>
      difference.all (·.relation ≠ relation)).map fun relation =>
        ⟨slot, context.directionFrom name relation, relation⟩

/-- The rule of the difference, at the stage of the second variable. -/
def differenceRule (context : PlanContext) (difference : Option Difference)
    (bound : List String) : Stage :=
  match difference with
  | some start =>
      if bound.length = 1 then
        [⟨0, .forward, start.version, context.relationType? start.relation⟩]
      else []
  | none => []

/-- The rules of one variable. -/
def stage
    (context : PlanContext)
    (difference : Option Difference)
    (readAs : Nat → Except Error Version)
    (bound : List String)
    (target : String) :
    Except Error Stage := do
  let rules ← (context.readings difference bound target).mapM fun reading => do
    let version ← readAs reading.relation
    return {
      slot := reading.slot
      direction := reading.direction
      version
      type := context.relationType? reading.relation : Rule }
  return context.differenceRule difference bound ++ rules

/-- The stages of the variables that follow the bound ones. -/
def stages (context : PlanContext) (difference : Option Difference)
    (readAs : Nat → Except Error Version) (bound : List String) :
    List String → Except Error (List Stage)
  | [] => .ok []
  | target :: rest => do
      let first ← context.stage difference readAs bound target
      let later ← context.stages difference readAs (bound ++ [target]) rest
      return first :: later

/-- The slot of a variable in an order. -/
def position (order : List String) (name : String) : Except Error Nat :=
  match order.idxOf? name with
  | some slot => .ok slot
  | none => .error (.violated (.unorderedVariable name))

/-- The version in which a relation is resolved. -/
def resolvedVersion
    (difference : Option Difference)
    (readAs : Nat → Except Error Version)
    (relation : Nat) : Except Error Version :=
  match difference with
  | some start =>
      if start.relation = relation then .ok start.version else readAs relation
  | none => readAs relation

/-- The look-ups of the relations. -/
def lookups (context : PlanContext) (order : List String)
    (difference : Option Difference) (readAs : Nat → Except Error Version) :
    Except Error (List EdgeLookup) :=
  (context.pattern.relations.zip context.relationNames).zipIdx.mapM
    fun ((relation, name), index) => do
      let source ← position order relation.source
      let target ← position order relation.target
      let version ← resolvedVersion difference readAs index
      return {
        name, source, target, type := context.relationType? index, version }

/-- The place of the variable or relation with a name; variables come first. -/
def placeOf (context : PlanContext) (order : List String) (name : String) :
    Except Error Place :=
  match order.idxOf? name, context.relationNames.idxOf? name with
  | some index, _ => .ok (.vertex index)
  | none, some index => .ok (.edge index)
  | none, none => .error (.plan (.unknownVariable name "predicate"))

/-- A predicate over places.  The key on the right is interned first. -/
def condition
    (context : PlanContext)
    (order : List String)
    (predicate : Predicate) :
    Planning Condition := do
  let right ← match predicate.right with
    | .property reference => do
        let place ← context.placeOf order reference.element
        pure (.property place (← Catalog.internProperty reference.key))
    | .literal value => pure (.literal value)
  let place ← context.placeOf order predicate.left.element
  let property ← Catalog.internProperty predicate.left.key
  return { place, property, comparison := predicate.comparison, right }

/-- The plan that binds the variables in a given order. -/
def plan
    (context : PlanContext)
    (order : List String)
    (difference : Option Difference)
    (readAs : Nat → Except Error Version) : Planning Plan := do
  let stages ← context.stages difference readAs (order.take 1) (order.drop 1)
  let lookups ← context.lookups order difference readAs
  let columns ←
    context.pattern.variableNames.mapM fun name => position order name
  let conditions ← context.pattern.predicates.mapM (context.condition order)
  let types ←
    order.mapM fun name => Catalog.internType? (context.pattern.typeOf? name)
  return { order, types, stages, lookups, conditions, columns }

end PlanContext

namespace Plan

/-- The plan for the rows of a pattern over the committed graph. -/
def ofPattern (pattern : Pattern) : Planning Plan := do
  let context ← PlanContext.ofPattern pattern
  context.plan context.incidence.order none fun _ => .ok .permanent

/-- The plan of a query for rows. -/
def ofQuery : Query → Planning Plan
  | .once pattern => ofPattern pattern
  | other =>
      throw (.plan (.unexpectedOperation "one-time match" other.operation))

end Plan

end DeltaGraph
