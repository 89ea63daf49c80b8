import DeltaGraph.Graph

/-!
# Batches of changes

Changes are staged in the pending batch of a graph, which is then committed or
rolled back.  Inside a batch the edge set changes, but vertices and edges
committed before it keep their types and property values: giving them other
ones is an error, and an operation that fails changes nothing.
-/

namespace DeltaGraph

/-- What committing a batch did to the edges. -/
structure CommitSummary where
  /-- The edges that became committed. -/
  promoted : Nat := 0
  /-- The committed edges that were dropped. -/
  removed : Nat := 0
  /-- The edges that the batch touched. -/
  touched : Nat := 0
  deriving DecidableEq

namespace Graph

/-- Whether a vertex was known before the batch. -/
def isCommittedVertex (graph : Graph) (vertex : VertexId) : Bool :=
  graph.vertices.contains vertex && !graph.created.contains vertex

/-- The reason why a committed vertex cannot be given a type and values. -/
def vertexConflict? (vertex : VertexId) (stored : Vertex) (type : Option TypeId)
    (values : List (PropertyId × Value)) : Option InvalidArgument :=
  match type.filter (· ≠ stored.type) with
  | some given => some (.retypedVertex vertex stored.type given)
  | none => (stored.properties.conflict? values).map (.changedVertex vertex)

/-- The graph in which a vertex that is not committed is known and has the
given type and values. -/
def writeVertex (graph : Graph) (vertex : VertexId) (type : Option TypeId)
    (values : List (PropertyId × Value)) : Graph :=
  let stored := (graph.vertices[vertex]?).getD {}
  { graph with
    vertices := graph.vertices.insert vertex
      ⟨type.getD stored.type, stored.properties.setAll values⟩
    created := graph.created.insert vertex }

/-- Makes a vertex known and gives it a type, if one is given, and values. -/
def putVertex (graph : Graph) (vertex : VertexId) (type : Option TypeId)
    (values : List (PropertyId × Value)) : Except Error Graph :=
  if graph.isCommittedVertex vertex then
    match (graph.vertices[vertex]?).bind
      (vertexConflict? vertex · type values) with
    | some conflict => .error (.invalid conflict)
    | none => .ok graph
  else .ok (graph.writeVertex vertex type values)

/-- The graph in which a vertex is known. -/
def ensureVertex (graph : Graph) (vertex : VertexId) : Graph :=
  if graph.vertices.contains vertex then graph
    else graph.writeVertex vertex none []

/-- The graph whose batch has touched an edge. -/
def touch (graph : Graph) (link : Link) : Graph :=
  { graph with batch := graph.batch.insert link }

/-- The property of a committed edge that would get another value. -/
def edgeConflict?
    (graph : Graph)
    (link : Link)
    (values : List (PropertyId × Value)) :
    Option PropertyId := do
  let edge ← graph.edges[link]?
  if edge.history.visible .permanent then edge.properties.conflict? values
    else none

/-- The graph in which the batch has added an edge, with its number. -/
def writeEdge
    (graph : Graph)
    (link : Link)
    (values : List (PropertyId × Value)) :
    EdgeId × Graph :=
  match graph.edges[link]? with
  | some edge =>
      (edge.id, { graph.touch link with
        edges := graph.edges.insert link
          { edge with
            history := edge.history.add
            properties := edge.properties.setAll values } })
  | none =>
      let id : EdgeId := ⟨graph.freshEdge⟩
      (id, { graph.touch link with
        edges :=
          graph.edges.insert link ⟨id, .added, Properties.setAll ∅ values⟩
        links := graph.links.insert id link
        freshEdge := graph.freshEdge + 1 })

/-- Adds an edge with values, and makes its ends known. -/
def addEdge (graph : Graph) (link : Link) (values : List (PropertyId × Value)) :
    Except Error (EdgeId × Graph) :=
  match graph.edgeConflict? link values with
  | some property =>
      .error (.invalid (.changedEdge link.source link.target property))
  | none =>
      let graph := (graph.ensureVertex link.source).ensureVertex link.target
      .ok (graph.writeEdge link values)

/-- Removes an edge, if there is one to remove. -/
def removeEdge? (graph : Graph) (link : Link) : Option Graph := do
  let edge ← graph.edges[link]?
  let next ← edge.history.remove?
  return { graph.touch link with
    edges := graph.edges.insert link { edge with history := next } }

/-- The graph that keeps the edges whose history passes a test, all of them
committed, and has no pending batch. -/
def settle (graph : Graph) (keeps : EdgeHistory → Bool) : Graph :=
  let edges := graph.edges.filterMap fun _ edge =>
    if keeps edge.history then some { edge with history := .committed }
      else none
  { graph with
    edges
    links := graph.links.filter fun _ link => edges.contains link
    batch := ∅
    created := ∅ }

/-- The number of edges that belong to one version and not to another. -/
def countChanged (graph : Graph) (version other : Version) : Nat :=
  (graph.edgesIn version).countP fun (_, edge) => !edge.history.visible other

/-- Commits the batch: what belongs to the merged version stays. -/
def commit (graph : Graph) : CommitSummary × Graph :=
  ({ promoted := graph.countChanged .merged .permanent
     removed := graph.countChanged .permanent .merged
     touched := graph.batch.size },
    graph.settle (·.visible .merged))

/-- Discards the batch: what was committed stays.  Also gives the number of
edges that the batch had touched. -/
def rollback (graph : Graph) : Nat × Graph :=
  let settled := graph.settle (·.visible .permanent)
  (graph.batch.size,
    { settled with
      vertices :=
        graph.vertices.filter fun vertex _ => !graph.created.contains vertex })

end Graph

end DeltaGraph
