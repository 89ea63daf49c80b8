import DeltaGraph.Graph.Reads
import DeltaGraph.Store.Adjacency

/-!
# Stores

A store keeps a graph in several tables, so that every question is answered by
a look-up.  Edges are kept by their numbers, and their numbers by their links.
Two maps lead from each vertex to the edges that leave it and to those that
enter it.  For the pending batch there are the list of the edges that it
touched, in the order in which it first touched them, and what the vertices
that it touched were like before.
-/

namespace DeltaGraph

/-- An edge in a store. -/
structure StoredEdge where
  link : Link
  history : EdgeHistory
  properties : Properties := ∅

/-- What is known about a stored edge besides its link. -/
def StoredEdge.edge (stored : StoredEdge) (id : EdgeId) : Edge :=
  ⟨id, stored.history, stored.properties⟩

/-- A graph and its pending batch, kept for fast answers. -/
structure Store where
  vertices : Std.ExtTreeMap VertexId Vertex := ∅
  /-- The edges that leave each vertex. -/
  outgoing : AdjacencyMap := ∅
  /-- The edges that enter each vertex. -/
  incoming : AdjacencyMap := ∅
  edges : Std.ExtTreeMap EdgeId StoredEdge := ∅
  /-- The numbers of the edges by their links. -/
  ids : Std.ExtTreeMap Link EdgeId := ∅
  /-- The number of the next new edge. -/
  freshEdge : Nat := 0
  /-- The edges that the batch touched, each once, in the order in which it
  first touched them. -/
  batch : List EdgeId := []
  /-- The members of the batch. -/
  seen : Std.ExtTreeSet EdgeId := ∅
  /-- The vertices that the batch touched, as they were before; nothing stands
  for a vertex that was not known. -/
  undo : Std.ExtTreeMap VertexId (Option Vertex) := ∅

/-- The members of a list in ascending order, without repetitions. -/
def Id.sorted {kind : Numbered} (ids : List (Id kind)) : List (Id kind) :=
  (ids.mergeSort fun left right => left ≤ right).eraseReps

namespace Store

/-- The store without vertices and edges. -/
def empty : Store := {}

/-- The adjacency lists of a direction. -/
def adjacency (store : Store) : Direction → AdjacencyMap
  | .forward => store.outgoing
  | .backward => store.incoming

/-- Whether the edge of an entry belongs to a version. -/
def shows (store : Store) (version : Version) (entry : Adjacent) : Bool :=
  (store.edges[entry.edge]?).any (·.history.visible version)

/-- The vertices reached from a vertex along the edges of a version, of the
type if one is given.  Parallel edges are next to each other in the list of the
vertex. -/
def neighbors (store : Store) (vertex : VertexId) (direction : Direction)
    (version : Version) (type : Option TypeId) : List VertexId :=
  match (store.adjacency direction)[vertex]? with
  | none => []
  | some list =>
      let shown := list.entries.toList.filter fun entry =>
        entry.hasType type && store.shows version entry
      (shown.map Adjacent.neighbor).eraseReps

/-- The ends, in a direction, of the edges of the batch that belong to a
version. -/
def endsInBatch (store : Store) (version : Version) (direction : Direction) :
    List VertexId :=
  ((store.batch.filterMap (store.edges[·]?)).filter
    (·.history.visible version)).map (·.link.near direction)

/-- The vertices whose lists for a direction have edges of a version. -/
def endsInLists (store : Store) (version : Version) (direction : Direction) :
    List VertexId :=
  ((store.adjacency direction).toList.filter fun (_, list) =>
    list.entries.any (store.shows version)).map Prod.fst

/-- The vertices from which an edge of a version can be followed.  For a
difference version the batch is scanned, and otherwise all lists. -/
def sources (store : Store) (version : Version) (direction : Direction) :
    List VertexId :=
  Id.sorted
    (if version.isDifference then store.endsInBatch version direction
    else store.endsInLists version direction)

/-- The known vertices. -/
def vertexIds (store : Store) : List VertexId :=
  Id.sorted store.vertices.keys

/-- The type of a known vertex. -/
def vertexType? (store : Store) (vertex : VertexId) : Option TypeId :=
  (store.vertices[vertex]?).map Vertex.type

/-- The value of a property of a vertex. -/
def vertexProperty? (store : Store) (vertex : VertexId)
    (property : PropertyId) : Option Value := do
  (← store.vertices[vertex]?).properties[property]?

/-- The link of an edge and what is known about the edge. -/
def edge? (store : Store) (id : EdgeId) : Option (Link × Edge) :=
  (store.edges[id]?).map fun stored => (stored.link, stored.edge id)

/-- The value of a property of an edge. -/
def edgeProperty? (store : Store) (id : EdgeId) (property : PropertyId) :
    Option Value := do
  (← store.edges[id]?).properties[property]?

/-- The number of edges of a version. -/
def countEdges (store : Store) (version : Version) : Nat :=
  store.edges.toList.countP fun (_, stored) => stored.history.visible version

/-- The edges of a version from one vertex to another, of the type if one is
given, in order of their types. -/
def edgesJoining (store : Store) (source target : VertexId)
    (type : Option TypeId) (version : Version) : List EdgeId :=
  match store.outgoing[source]? with
  | none => []
  | some list =>
      ((list.toNeighbor target).filter fun entry =>
        entry.hasType type && store.shows version entry).map Adjacent.edge

/-- The first of the edges of a version from one vertex to another. -/
def resolveEdge (store : Store) (source target : VertexId)
    (type : Option TypeId) (version : Version) : Except Error EdgeId :=
  match (store.edgesJoining source target type version).head? with
  | some edge => .ok edge
  | none => .error (.violated (.missingEdge source target type version))

/-- Whether edges were touched since the last batch ended. -/
def isPending (store : Store) : Bool :=
  !store.batch.isEmpty

/-- What is read of a store. -/
def reads (store : Store) : GraphReads where
  vertexIds := store.vertexIds
  vertexType? := store.vertexType?
  vertexProperty? := store.vertexProperty?
  edge? := store.edge?
  edgeProperty? := store.edgeProperty?
  neighbors := store.neighbors
  edgesJoining := store.edgesJoining
  resolveEdge := store.resolveEdge
  sources := store.sources
  countEdges := store.countEdges
  isPending := store.isPending

/-- The graph that the store keeps. -/
def graph (store : Store) : Graph where
  vertices := store.vertices
  edges := store.ids.filterMap fun _ id => (store.edges[id]?).map (·.edge id)
  links := store.edges.map fun _ stored => stored.link
  freshEdge := store.freshEdge
  batch := .ofList ((store.batch.filterMap (store.edges[·]?)).map (·.link))
  created :=
    .ofList ((store.undo.toList.filter (·.2.isNone)).map Prod.fst)

end Store

end DeltaGraph
