import DeltaGraph.Pattern
import Std.Data.ExtTreeMap

/-!
# Incidence of relations and variables

The incidence of a pattern lists, under each variable in name order, the ends
of relations that touch it.  A relation is listed twice: outgoing under its
source and incoming under its target.  Parallel relations stay distinct.
-/

namespace DeltaGraph

/-- An end of a relation, as seen from the variable that it touches. -/
structure RelationEnd where
  /-- The variable at the other end. -/
  neighbor : String
  incoming : Bool
  /-- The index of the relation in the pattern. -/
  relation : Nat
  deriving DecidableEq

/-- The ends of relations under the variables that they touch. -/
structure Incidence where
  ends : Std.ExtTreeMap String (List RelationEnd)

namespace Incidence

/-- The incidence that lists a variable, with the ends it has so far. -/
def declare (incidence : Incidence) (name : String) : Incidence :=
  ⟨incidence.ends.insertIfNew name []⟩

/-- The incidence with one more end under a variable. -/
def addEnd
    (incidence : Incidence)
    (name : String)
    (relationEnd : RelationEnd) : Incidence :=
  ⟨incidence.ends.insert name (incidence.ends.getD name [] ++ [relationEnd])⟩

/-- The incidence with both ends of a relation. -/
def addRelation
    (incidence : Incidence)
    (relation : Relation)
    (index : Nat) : Incidence :=
  (incidence.addEnd relation.source ⟨relation.target, false, index⟩).addEnd
    relation.target
    ⟨relation.source, true, index⟩

/-- The incidence of the declared variables and the relations of a pattern. -/
def ofPattern (pattern : Pattern) : Incidence :=
  let declared := pattern.variableNames.foldl declare ⟨∅⟩
  pattern.relations.zipIdx.foldl
    (fun incidence (relation, index) => incidence.addRelation relation index)
    declared

/-- The variables in name order. -/
def names (incidence : Incidence) : List String :=
  incidence.ends.keys

/-- The number of variables. -/
def size (incidence : Incidence) : Nat :=
  incidence.ends.size

/-- The ends of relations that touch a variable. -/
def endsAt (incidence : Incidence) (name : String) : List RelationEnd :=
  incidence.ends.getD name []

/-- The number of ends of relations that touch a variable. -/
def degree (incidence : Incidence) (name : String) : Nat :=
  (incidence.endsAt name).length

/-- The relations that join two variables, in order of declaration. -/
def relationsJoining (incidence : Incidence) (left right : String) : List Nat :=
  ((incidence.endsAt left).filter (·.neighbor == right)).map
    RelationEnd.relation

/-- Whether a relation joins two variables. -/
def adjacent (incidence : Incidence) (left right : String) : Bool :=
  (incidence.endsAt left).any (·.neighbor == right)

end Incidence

end DeltaGraph
