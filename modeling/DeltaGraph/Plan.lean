import DeltaGraph.Error
import DeltaGraph.Row
import DeltaGraph.Value

/-!
# Plans

A plan binds the variables of a pattern one after another.  A stage holds the
rules that the next variable has to meet: each rule reads the neighbors of a
bound vertex in one version of the graph, and a stage without rules admits
every vertex.  What follows the stages resolves each relation to an edge,
filters by predicates and selects the output columns.
-/

namespace DeltaGraph

/-- The next vertex is a neighbor of the vertex in a slot, along an edge of the
type if one is given. -/
structure Rule where
  slot : Nat
  direction : Direction
  version : Version
  type : Option TypeId
  deriving DecidableEq

/-- The rules for one variable. -/
abbrev Stage := List Rule

/-- The place of a bound vertex or edge in a row. -/
inductive Place
  | vertex (index : Nat)
  | edge (index : Nat)
  deriving DecidableEq

/-- A relation between two bound vertices, for which an edge is to be looked
up. -/
structure EdgeLookup where
  name : String
  source : Nat
  target : Nat
  type : Option TypeId
  version : Version
  deriving DecidableEq

/-- The right-hand side of a condition. -/
inductive ConditionOperand
  | property (place : Place) (property : PropertyId)
  | literal (value : Value)
  deriving DecidableEq

/-- A predicate over the places of a row. -/
structure Condition where
  place : Place
  property : PropertyId
  comparison : Comparison
  right : ConditionOperand
  deriving DecidableEq

/-- How to enumerate the rows of a pattern. -/
structure Plan where
  /-- The variables in the order in which they are bound. -/
  order : List String
  /-- The declared types of the variables, in the same order. -/
  types : List (Option TypeId)
  /-- The rules of each variable after the first. -/
  stages : List Stage
  /-- The relations in order of declaration. -/
  lookups : List EdgeLookup
  conditions : List Condition
  /-- The slot shown in each column. -/
  columns : List Nat
  deriving DecidableEq

namespace Plan

/-- The version that the first rule reads. -/
def startVersion (plan : Plan) : Version :=
  match plan.stages with
  | (rule :: _) :: _ => rule.version
  | _ => .permanent

/-- The kind of the rows: a plan that starts from the additions or removals of
a batch reports rows that enter or leave the result. -/
def rowKind (plan : Plan) : RowKind :=
  match plan.startVersion with
  | .additions => .emerged
  | .removals => .deleted
  | .permanent => .matched
  | .merged => .matched

end Plan

/-- A plan for the rows that use a change of one relation. -/
structure DeltaPlan where
  /-- The index of the relation. -/
  relation : Nat
  /-- Additions or removals. -/
  version : Version
  plan : Plan
  deriving DecidableEq

/-- The plans that maintain the result of a standing pattern. -/
structure StandingPlan where
  deltas : List DeltaPlan
  relationNames : List String
  variableNames : List String
  deriving DecidableEq

end DeltaGraph
