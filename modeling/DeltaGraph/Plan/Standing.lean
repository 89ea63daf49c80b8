import DeltaGraph.Plan.OfPattern

/-!
# Plans of standing patterns

The change of a pattern's result is the sum of the changes due to each
relation.  For the relation at hand one delta plan reads the additions and one
the removals of the batch, the relations before it are read as the batch leaves
them, and the relations after it as the batch found them.
-/

namespace DeltaGraph

/-- The relations that are read from the merged graph, and those that are read
from the committed graph. -/
structure RelationVersions where
  merged : Std.ExtTreeSet Nat
  permanent : Std.ExtTreeSet Nat

namespace RelationVersions

/-- At first every relation is read from the committed graph. -/
def initial (relations : Nat) : RelationVersions :=
  ⟨∅, .ofList (List.range relations)⟩

/-- A relation is no longer read from the committed graph. -/
def release (versions : RelationVersions) (relation : Nat) : RelationVersions :=
  { versions with permanent := versions.permanent.erase relation }

/-- A relation is read from the merged graph. -/
def merge (versions : RelationVersions) (relation : Nat) : RelationVersions :=
  { versions with merged := versions.merged.insert relation }

/-- The version in which a relation is read. -/
def readAs
    (versions : RelationVersions)
    (relation : Nat) : Except Error Version :=
  if versions.merged.contains relation then .ok .merged
  else if versions.permanent.contains relation then .ok .permanent
  else .error (.violated (.unclassifiedRelation relation))

end RelationVersions

namespace PlanContext

/-- The two delta plans of a relation.  Its ends are bound first. -/
def deltasOf (context : PlanContext) (versions : RelationVersions) (index : Nat)
    (relation : Relation) : Planning (List DeltaPlan) := do
  let order := context.incidence.orderAfter [relation.source, relation.target]
  [Version.additions, .removals].mapM fun version => do
    let plan ← context.plan order (some ⟨index, version⟩) versions.readAs
    return { relation := index, version, plan }

/-- The delta plans of the relations from an index on. -/
def deltasFrom
    (context : PlanContext)
    (versions : RelationVersions)
    (index : Nat) :
    List Relation → Planning (List DeltaPlan)
  | [] => pure []
  | relation :: rest => do
      let during := versions.release index
      let deltas ← context.deltasOf during index relation
      let later ← context.deltasFrom (during.merge index) (index + 1) rest
      return deltas ++ later

end PlanContext

namespace StandingPlan

/-- The delta plans of a pattern, two for each relation in order. -/
def ofPattern (pattern : Pattern) : Planning StandingPlan := do
  let context ← PlanContext.ofPattern pattern
  let deltas ←
    context.deltasFrom (.initial pattern.relations.length) 0 pattern.relations
  return {
    deltas
    relationNames := context.relationNames
    variableNames := pattern.variableNames }

/-- The delta plans of a standing query. -/
def ofQuery : Query → Planning StandingPlan
  | .standing pattern _ => ofPattern pattern
  | other =>
      throw (.plan (.unexpectedOperation "continuous match" other.operation))

end StandingPlan

end DeltaGraph
