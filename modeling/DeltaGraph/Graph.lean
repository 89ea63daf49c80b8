import DeltaGraph.Error
import DeltaGraph.Value
import Std.Data.ExtTreeMap
import Std.Data.ExtTreeSet

/-!
# Graphs

A graph is a table of edges, at most one for each source, target and type,
together with the vertices it knows.  Each edge has a history that tells how the
pending batch touched it.  Everything that can be read from a graph is read off
this table, in one of the four versions.
-/

namespace DeltaGraph

/-- Property values by property, in ascending order of properties. -/
abbrev Properties := Std.ExtTreeMap PropertyId Value

/-- The values of a list set one after another. -/
def Properties.setAll
    (properties : Properties)
    (values : List (PropertyId × Value)) :
    Properties :=
  values.foldl
    (fun properties (property, value) => properties.insert property value)
    properties

/-- The first property of a list whose value is not the stored one. -/
def Properties.conflict?
    (properties : Properties)
    (values : List (PropertyId × Value)) :
    Option PropertyId :=
  values.findSome? fun (property, value) =>
    if (properties[property]?).any (·.equals value) then none else some property

/-- What is known about a vertex. -/
structure Vertex where
  type : TypeId := .default
  properties : Properties := ∅

/-- The ends and the type of an edge. -/
structure Link where
  source : VertexId
  target : VertexId
  type : TypeId
  deriving DecidableEq

namespace Link

/-- Links are ordered by source, then by target, then by type. -/
instance : Ord Link where
  compare left right :=
    (compare left.source right.source).then
      ((compare left.target right.target).then (compare left.type right.type))

theorem compare_def (left right : Link) :
    compare left right =
      (compare left.source right.source).then
        ((compare left.target right.target).then
          (compare left.type right.type)) := rfl

instance : Std.TransOrd Link :=
  inferInstanceAs (Std.TransCmp (compareLex (compareOn Link.source)
    (compareLex (compareOn Link.target) (compareOn Link.type))))

instance : Std.LawfulEqOrd Link where
  eq_of_compare {left right} equal := by
    rw [compare_def, Ordering.then_eq_eq, Ordering.then_eq_eq,
      Std.LawfulEqOrd.compare_eq_iff_eq, Std.LawfulEqOrd.compare_eq_iff_eq,
      Std.LawfulEqOrd.compare_eq_iff_eq] at equal
    cases left
    cases right
    simpa using equal

/-- The end from which an edge is followed in a direction. -/
def near (link : Link) : Direction → VertexId
  | .forward => link.source
  | .backward => link.target

/-- The end to which an edge is followed in a direction. -/
def far (link : Link) : Direction → VertexId
  | .forward => link.target
  | .backward => link.source

/-- Whether the edge has the type, if one is asked for. -/
def hasType (link : Link) (type : Option TypeId) : Bool :=
  type.all (· == link.type)

end Link

/-- What is known about an edge besides its link. -/
structure Edge where
  id : EdgeId
  history : EdgeHistory
  properties : Properties := ∅

/-- A graph and its pending batch. -/
structure Graph where
  vertices : Std.ExtTreeMap VertexId Vertex := ∅
  /-- The table of edges. -/
  edges : Std.ExtTreeMap Link Edge := ∅
  /-- The links of the edges by their numbers. -/
  links : Std.ExtTreeMap EdgeId Link := ∅
  /-- The number of the next new edge.  Numbers are not used again. -/
  freshEdge : Nat := 0
  /-- The edges that the batch touched. -/
  batch : Std.ExtTreeSet Link := ∅
  /-- The vertices that the batch created. -/
  created : Std.ExtTreeSet VertexId := ∅

namespace Graph

/-- The graph without vertices and edges. -/
def empty : Graph := {}

/-- The known vertices in ascending order. -/
def vertexIds (graph : Graph) : List VertexId :=
  graph.vertices.keys

/-- The type of a known vertex. -/
def vertexType? (graph : Graph) (vertex : VertexId) : Option TypeId :=
  (graph.vertices[vertex]?).map Vertex.type

/-- The value of a property of a vertex. -/
def vertexProperty?
    (graph : Graph)
    (vertex : VertexId)
    (property : PropertyId) :
    Option Value := do
  (← graph.vertices[vertex]?).properties[property]?

/-- The link of an edge and what is known about the edge. -/
def edge? (graph : Graph) (id : EdgeId) : Option (Link × Edge) := do
  let link ← graph.links[id]?
  return (link, ← graph.edges[link]?)

/-- The value of a property of an edge. -/
def edgeProperty?
    (graph : Graph)
    (id : EdgeId)
    (property : PropertyId) : Option Value := do
  (← graph.edge? id).2.properties[property]?

/-- The edges of a version with their links, in order of their links. -/
def edgesIn (graph : Graph) (version : Version) : List (Link × Edge) :=
  graph.edges.toList.filter fun (_, edge) => edge.history.visible version

/-- The number of edges of a version. -/
def countEdges (graph : Graph) (version : Version) : Nat :=
  (graph.edgesIn version).length

/-- The edges of the batch that belong to a version. -/
def batchIn (graph : Graph) (version : Version) : List Link :=
  graph.batch.toList.filter fun link =>
    (graph.edges[link]?).any (·.history.visible version)

/-- The vertices from which an edge of a version can be followed, in ascending
order.  The edges of a difference version are found in the batch. -/
def sources
    (graph : Graph)
    (version : Version)
    (direction : Direction) : List VertexId :=
  let links :=
    if version.isDifference then graph.batchIn version
    else (graph.edgesIn version).map Prod.fst
  Id.ascending (links.map (·.near direction))

/-- Whether edges were touched since the last batch ended. -/
def isPending (graph : Graph) : Bool :=
  !graph.batch.isEmpty

end Graph

end DeltaGraph
