import DeltaGraph.Graph

/-!
# Edges at a vertex

Walking a graph asks again and again for the edges that leave or enter a vertex
and for those that join two vertices.  A walkable graph answers with lists, in
order of the links.  The lists can be picked out of the table of edges each
time, or out of indexes made once; both give the same walkable graph.
-/

namespace DeltaGraph

/-- A graph with the edges that can be followed from each vertex. -/
structure WalkableGraph where
  graph : Graph
  /-- The edges of all histories that are followed from a vertex in a
  direction. -/
  incident : VertexId → Direction → List (Link × Edge)
  /-- The edges of all histories from one vertex to another. -/
  joining : VertexId → VertexId → List (Link × Edge)

/-- The members of a list with a given key, under each key. -/
def groupBy {α : Type} (key : α → VertexId) (items : List α) :
    Std.ExtTreeMap VertexId (List α) :=
  items.foldr
    (fun item groups =>
      groups.insert (key item) (item :: groups.getD (key item) [])) ∅

/-- A group holds what passes the test of its key. -/
theorem getD_groupBy
    {α : Type}
    (key : α → VertexId)
    (items : List α)
    (vertex : VertexId) :
    (groupBy key items).getD vertex [] = items.filter (key · = vertex) := by
  induction items with
  | nil => simp [groupBy]
  | cons first rest ih =>
      rw [groupBy, List.foldr_cons, ←
        groupBy, Std.ExtTreeMap.getD_insert, List.filter_cons]
      by_cases same : key first = vertex
      · subst same
        simp [ih]
      · simp [same, ih]

namespace Graph

/-- The edges that are followed from a vertex in a direction. -/
def incident (graph : Graph) (vertex : VertexId) (direction : Direction) :
    List (Link × Edge) :=
  graph.edges.toList.filter fun (link, _) => link.near direction = vertex

/-- The edges from one vertex to another. -/
def joining (graph : Graph) (source target : VertexId) : List (Link × Edge) :=
  (graph.incident source .forward).filter fun (link, _) => link.target = target

/-- A graph to be walked a little. -/
def walkable (graph : Graph) : WalkableGraph :=
  ⟨graph, graph.incident, graph.joining⟩

/-- A graph to be walked a lot.  An index is made when it is first asked for. -/
def indexed (graph : Graph) : WalkableGraph :=
  let outgoing :=
    Thunk.mk fun _ => groupBy (fun (link, _) => link.source) graph.edges.toList
  let incoming :=
    Thunk.mk fun _ => groupBy (fun (link, _) => link.target) graph.edges.toList
  let pairs := Thunk.mk fun _ =>
    outgoing.get.map fun _ edges => groupBy (fun (link, _) => link.target) edges
  { graph
    incident := fun vertex direction =>
      match direction with
      | .forward => outgoing.get.getD vertex []
      | .backward => incoming.get.getD vertex []
    joining := fun source target =>
      match pairs.get[source]? with
      | some targets => targets.getD target []
      | none => [] }

/-- The index of the edges at a vertex holds what the table of edges holds. -/
theorem incident_indexed (graph : Graph) :
    graph.indexed.incident = graph.incident := by
  funext vertex direction
  cases direction <;> exact getD_groupBy _ _ _

/-- The index of the edges that join two vertices holds what the table of edges
holds. -/
theorem joining_indexed (graph : Graph) :
    graph.indexed.joining = graph.joining := by
  funext source target
  have outgoing :
      (groupBy (fun (link, _) => link.source) graph.edges.toList)[source]?.getD
        [] =
        graph.incident source .forward := by
    rw [← Std.ExtTreeMap.getD_eq_getD_getElem?]
    exact getD_groupBy _ _ _
  rw [joining, ← outgoing]
  simp only [indexed, Thunk.get, Std.ExtTreeMap.getElem?_map]
  cases (groupBy (fun (link, _) => link.source)
    graph.edges.toList)[source]? with
  | none => rfl
  | some edges => exact getD_groupBy _ _ _

/-- The indexes change nothing but the cost of walking. -/
theorem indexed_eq_walkable (graph : Graph) :
    graph.indexed = graph.walkable := by
  rw [walkable, ← incident_indexed, ← joining_indexed]
  rfl

end Graph

namespace WalkableGraph

/-- The vertices reached from a vertex along the edges of a version, of the
type if one is given, in ascending order. -/
def neighbors
    (walkable : WalkableGraph)
    (vertex : VertexId)
    (direction : Direction)
    (version : Version)
    (type : Option TypeId) : List VertexId :=
  Id.ascending
    ((walkable.incident vertex direction).filterMap fun (link, edge) =>
      if edge.history.visible version ∧ link.hasType type then
        some (link.far direction)
      else none)

/-- The edges of a version from one vertex to another, of the type if one is
given, in order of their types. -/
def edgesJoining
    (walkable : WalkableGraph)
    (source target : VertexId)
    (type : Option TypeId)
    (version : Version) : List EdgeId :=
  (walkable.joining source target).filterMap fun (link, edge) =>
    if edge.history.visible version ∧ link.hasType type then some edge.id
      else none

/-- The edge of the smallest type among the edges of a version from one vertex
to another. -/
def resolveEdge
    (walkable : WalkableGraph)
    (source target : VertexId)
    (type : Option TypeId)
    (version : Version) : Except Error EdgeId :=
  match walkable.edgesJoining source target type version with
  | edge :: _ => .ok edge
  | [] => .error (.violated (.missingEdge source target type version))

end WalkableGraph

end DeltaGraph
