import DeltaGraph.Pattern
import Std.Data.ExtTreeMap

/-!
# Queries

A query asks for the rows of a pattern, once or as a standing query, or it adds
or removes edges.
-/

namespace DeltaGraph

/-- Property values by key; keys are in ascending order. -/
abbrev NamedValues := Std.ExtTreeMap String Value

/-- An edge to add, with what is to be set on it and on its ends. -/
structure NewEdge where
  source : VertexId
  target : VertexId
  /-- The type of the edge; none means the default type. -/
  type : Option String := none
  sourceType : Option String := none
  targetType : Option String := none
  sourceValues : NamedValues := ∅
  targetValues : NamedValues := ∅
  edgeValues : NamedValues := ∅

/-- An edge to remove. -/
structure EdgeReference where
  source : VertexId
  target : VertexId
  /-- The type of the edge; none means the default type. -/
  type : Option String
  deriving DecidableEq

/-- A change of the edges of a graph. -/
inductive Change
  | add (edge : NewEdge)
  | remove (reference : EdgeReference)

/-- Where a standing query delivers its rows. -/
inductive Destination
  /-- Appended to a file. -/
  | file (name : String)
  /-- Handed to the callback registered under a name. -/
  | callback (name : String)
  deriving DecidableEq

/-- What can be asked of an engine. -/
inductive Query
  | once (pattern : Pattern)
  | standing (pattern : Pattern) (destination : Destination)
  | create (edges : List NewEdge)
  | delete (references : List EdgeReference)

/-- The name of a query's operation. -/
def Query.operation : Query → String
  | once _ => "MATCH"
  | standing .. => "CONTINUOUS MATCH"
  | create _ => "CREATE"
  | delete _ => "DELETE"

end DeltaGraph
