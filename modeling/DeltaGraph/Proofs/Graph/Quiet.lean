import DeltaGraph.Proofs.Graph.Commit

/-!
# Ending a batch with nothing pending

A batch is pending once it has touched an edge.  With nothing pending a commit
and a rollback count nothing, and neither changes an answer about edges.  A
commit keeps the vertices as well, but a batch that touched no edge may have
made vertices known, and a rollback forgets these: it changes no answer only if
there are none.
-/

namespace DeltaGraph

namespace Graph

/-- Every query about edges has the same answer in both graphs. -/
structure ReadsEdgesAs (graph other : Graph) : Prop where
  edge (id : EdgeId) : graph.edge? id = other.edge? id
  edgeProperty (id : EdgeId) (property : PropertyId) :
    graph.edgeProperty? id property = other.edgeProperty? id property
  edgesJoining (source target : VertexId) (type : Option TypeId)
    (version : Version) :
    graph.walkable.edgesJoining source target type version =
      other.walkable.edgesJoining source target type version
  resolveEdge (source target : VertexId) (type : Option TypeId)
    (version : Version) :
    graph.walkable.resolveEdge source target type version =
      other.walkable.resolveEdge source target type version
  neighbors (vertex : VertexId) (direction : Direction) (version : Version)
      (type : Option TypeId) :
    graph.walkable.neighbors vertex direction version type =
      other.walkable.neighbors vertex direction version type
  sources (version : Version) (direction : Direction) :
    graph.sources version direction = other.sources version direction
  countEdges (version : Version) :
    graph.countEdges version = other.countEdges version
  isPending : graph.isPending = other.isPending

/-- Every query about vertices has the same answer in both graphs. -/
structure ReadsVerticesAs (graph other : Graph) : Prop where
  vertexIds : graph.vertexIds = other.vertexIds
  vertexType (vertex : VertexId) :
    graph.vertexType? vertex = other.vertexType? vertex
  vertexProperty (vertex : VertexId) (property : PropertyId) :
    graph.vertexProperty? vertex property =
      other.vertexProperty? vertex property

/-- Queries about edges read three of the tables. -/
theorem readsEdgesAs_of_tables
    {graph other : Graph}
    (edges : graph.edges = other.edges)
    (links : graph.links = other.links)
    (batch : graph.batch = other.batch) :
    graph.ReadsEdgesAs other := by
  have edge (id : EdgeId) : graph.edge? id = other.edge? id := by
    rw [edge?, edge?, edges, links]
  have edgesIn (version : Version) :
      graph.edgesIn version = other.edgesIn version := by
    rw [Graph.edgesIn, Graph.edgesIn, edges]
  have incident : graph.incident = other.incident := by
    funext vertex direction
    rw [Graph.incident, Graph.incident, edges]
  have joining : graph.joining = other.joining := by
    funext source target
    rw [Graph.joining, Graph.joining, incident]
  constructor
  case edge => exact edge
  case edgeProperty =>
    intro id property
    rw [edgeProperty?, edgeProperty?, edge]
  case edgesJoining =>
    intro source target type version
    simp only [WalkableGraph.edgesJoining, walkable, joining]
  case resolveEdge =>
    intro source target type version
    simp only [WalkableGraph.resolveEdge, WalkableGraph.edgesJoining, walkable,
      joining]
  case neighbors =>
    intro vertex direction version type
    simp only [WalkableGraph.neighbors, walkable, incident]
  case sources =>
    intro version direction
    rw [Graph.sources, Graph.sources, edgesIn, batchIn, batchIn, edges, batch]
  case countEdges =>
    intro version
    rw [Graph.countEdges, Graph.countEdges, edgesIn]
  case isPending => rw [Graph.isPending, Graph.isPending, batch]

/-- Queries about vertices read the table of vertices. -/
theorem readsVerticesAs_of_vertices
    {graph other : Graph}
    (vertices : graph.vertices = other.vertices) :
    graph.ReadsVerticesAs other where
  vertexIds := by rw [vertexIds, vertexIds, vertices]
  vertexType vertex := by rw [vertexType?, vertexType?, vertices]
  vertexProperty vertex property := by
    rw [vertexProperty?, vertexProperty?, vertices]

/-! ## What the ends of a quiet batch do -/

section

variable {graph start : Graph} {steps : List BatchStep}

/-- With nothing pending a commit only drops the list of the new vertices. -/
theorem commit_of_quiet (sound : graph.Sound) (quiet : graph.batch = ∅) :
    graph.commit = ({}, { graph with created := ∅ }) := by
  have touched : graph.batch.size = 0 := by
    rw [quiet, Std.ExtTreeSet.size_empty]
  have changed := sound.card_changed_le
  rw [touched, Nat.le_zero, Nat.add_eq_zero_iff] at changed
  have counted : graph.commit.1 = {} := by
    simp only [commit, countChanged_eq_card, changed, touched]
  exact Prod.ext counted (settle_of_quiet sound quiet rfl)

/-- With nothing pending a rollback only forgets the new vertices. -/
theorem rollback_of_quiet (sound : graph.Sound) (quiet : graph.batch = ∅) :
    graph.rollback =
      (0, { graph with
        vertices :=
          graph.vertices.filter fun vertex _ => !graph.created.contains vertex
        created := ∅ }) := by
  have touched : graph.batch.size = 0 := by
    rw [quiet, Std.ExtTreeSet.size_empty]
  have shown : EdgeHistory.committed.visible .permanent = true := rfl
  simp only [rollback, touched, settle_of_quiet sound quiet shown]

/-- A rollback leaves the vertices that were known when the batch began. -/
theorem vertices_rollback
    (settled : start.Settled)
    (staged : start.stageAll steps = graph) :
    graph.rollback.2.vertices = start.vertices := by
  rw [← staged]
  exact (alike_rollback settled (start.continues_stageAll steps)).vertices

/-- If no vertex is known that was not known when the batch began, a rollback
leaves all vertices as they are. -/
theorem vertices_rollback_eq_self
    (settled : start.Settled)
    (staged : start.stageAll steps = graph)
    (known : graph.vertexIds = start.vertexIds) :
    graph.rollback.2.vertices = graph.vertices := by
  have continues : start.Continues graph :=
    staged ▸ start.continues_stageAll steps
  refine Std.ExtTreeMap.ext_getElem? fun vertex => ?_
  rw [getElem?_vertices_rollback]
  split
  · rename_i new
    have missing : start.vertices[vertex]? = none := by
      refine (continues.unknown new).resolve_left ?_
      simp [settled.created_eq_empty]
    have unlisted : vertex ∉ graph.vertexIds := by
      rw [known, vertexIds, Std.ExtTreeMap.mem_keys,
        Std.ExtTreeMap.mem_iff_isSome_getElem?, missing]
      exact Bool.false_ne_true
    rw [vertexIds, Std.ExtTreeMap.mem_keys] at unlisted
    exact (Std.ExtTreeMap.getElem?_eq_none unlisted).symm
  · rfl

/-- What ending a batch does to a graph with nothing pending. -/
structure EndsQuietly (graph : Graph) : Prop where
  committed : graph.commit.1 = {}
  takenBack : graph.rollback.1 = 0
  commitEdges : graph.commit.2.ReadsEdgesAs graph
  commitVertices : graph.commit.2.ReadsVerticesAs graph
  rollbackEdges : graph.rollback.2.ReadsEdgesAs graph
  /-- The graph comes from the steps of a batch. -/
  staged : ∃ (start : Graph) (steps : List BatchStep),
    start.Settled ∧ start.stageAll steps = graph
  /-- A rollback leaves the vertices as they were when the batch began. -/
  rollbackVertices {start : Graph} {steps : List BatchStep}
    (settled : start.Settled)
    (staged : start.stageAll steps = graph) :
      graph.rollback.2.ReadsVerticesAs start
  /-- A rollback keeps all vertices unless the batch made some known. -/
  unchanged_iff {start : Graph} {steps : List BatchStep}
    (settled : start.Settled)
    (staged : start.stageAll steps = graph) :
    graph.rollback.2.ReadsVerticesAs graph ↔ graph.vertexIds = start.vertexIds

/-- With nothing pending, ending the batch counts nothing and changes no answer,
except that a rollback forgets the vertices that the batch made known. -/
theorem ends_quietly
    (reachable : graph.Reachable)
    (quiet : graph.isPending = false) :
    graph.EndsQuietly := by
  have sound := reachable.sound
  have untouched := isPending_eq_false_iff.mp quiet
  have commits := commit_of_quiet sound untouched
  have takesBack := rollback_of_quiet sound untouched
  constructor
  case committed => rw [commits]
  case takenBack => rw [takesBack]
  case commitEdges => rw [commits]; exact readsEdgesAs_of_tables rfl rfl rfl
  case commitVertices => exact readsVerticesAs_of_vertices rfl
  case rollbackEdges => rw [takesBack]; exact readsEdgesAs_of_tables rfl rfl rfl
  case staged => exact reachable.exists_steps
  case rollbackVertices =>
    exact fun settled staged =>
      readsVerticesAs_of_vertices (vertices_rollback settled staged)
  case unchanged_iff =>
    intro start steps settled staged
    constructor
    · intro same
      rw [←
        same.vertexIds, vertexIds, vertexIds, vertices_rollback settled staged]
    · intro known
      exact readsVerticesAs_of_vertices
        (vertices_rollback_eq_self settled staged known)

end

/-- After a commit a batch tries in vain to retype a vertex and to remove an
edge, and makes a vertex known. -/
theorem ends_quietly_after_new_vertex :
    let start :=
      (empty.stage (.addEdge ⟨⟨1⟩, ⟨2⟩, .default⟩ [(⟨0⟩, .int 7)])).commit.2
    let graph := start.stageAll
      [.putVertex ⟨1⟩ (some ⟨2⟩) [], .removeEdge ⟨⟨2⟩, ⟨1⟩, .default⟩,
        .putVertex ⟨3⟩ (some ⟨1⟩) []]
    graph.Reachable ∧ graph.isPending = false ∧
      graph.vertexIds = [⟨1⟩, ⟨2⟩, ⟨3⟩] ∧
      graph.EndsQuietly := by
  intro start graph
  have reachable : graph.Reachable :=
    (Reachable.empty.stage _).commit.stageAll _
  have quiet : graph.isPending = false := by decide +kernel
  exact ⟨reachable, quiet, by decide +kernel, ends_quietly reachable quiet⟩

/-- With nothing pending, a rollback forgets a vertex. -/
theorem rollback_forgets_vertex :
    let graph := empty.stage (.putVertex ⟨1⟩ none [])
    graph.Reachable ∧ graph.isPending = false ∧ graph.vertexIds = [⟨1⟩] ∧
      graph.rollback.2.vertexIds = [] := by
  intro graph
  refine ⟨.stage _ .empty, ?_, ?_, ?_⟩ <;> decide +kernel

end Graph

end DeltaGraph
