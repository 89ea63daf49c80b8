import DeltaGraph.Graph.Incident
import DeltaGraph.Proofs.Graph.Continuation

/-!
# Graphs that answer alike

A graph answers queries about its vertices and edges.  Sound graphs with the
same vertices, with edges alike and with the same batch answer every query
alike.
-/

namespace DeltaGraph

namespace Graph

/-- Every query has the same answer in both graphs, where values count as the
same if they are alike. -/
structure AnswersAs (graph other : Graph) : Prop where
  vertexIds : graph.vertexIds = other.vertexIds
  vertexType (vertex : VertexId) :
    graph.vertexType? vertex = other.vertexType? vertex
  vertexProperty (vertex : VertexId) (property : PropertyId) :
    Option.Rel Value.Alike (graph.vertexProperty? vertex property)
      (other.vertexProperty? vertex property)
  /-- The link, the history and the properties of an edge. -/
  edge (id : EdgeId) :
    Option.Rel (fun found counterpart =>
        found.1 = counterpart.1 ∧ found.2.Alike counterpart.2)
      (graph.edge? id) (other.edge? id)
  edgeProperty (id : EdgeId) (property : PropertyId) :
    Option.Rel Value.Alike (graph.edgeProperty? id property)
      (other.edgeProperty? id property)
  edgesJoining (source target : VertexId) (type : Option TypeId)
    (version : Version) :
    graph.walkable.edgesJoining source target type version =
      other.walkable.edgesJoining source target type version
  neighbors (vertex : VertexId) (direction : Direction) (version : Version)
      (type : Option TypeId) :
    graph.walkable.neighbors vertex direction version type =
      other.walkable.neighbors vertex direction version type
  sources (version : Version) (direction : Direction) :
    graph.sources version direction = other.sources version direction
  countEdges (version : Version) :
    graph.countEdges version = other.countEdges version

/-! ## Graphs with the same tables -/

/-- Graphs with the same vertices, with edges alike and with the same batch. -/
structure Alike (graph other : Graph) : Prop where
  vertices : graph.vertices = other.vertices
  edges (link : Link) :
    Option.Rel Edge.Alike graph.edges[link]? other.edges[link]?
  batch : graph.batch = other.batch

namespace Alike

variable {graph other : Graph}

theorem refl (graph : Graph) : graph.Alike graph :=
  ⟨rfl, fun _ => optionRel_refl Edge.Alike.refl _, rfl⟩

theorem symm (alike : graph.Alike other) : other.Alike graph :=
  ⟨alike.vertices.symm,
    fun link => optionRel_symm (fun _ _ => Edge.Alike.symm) (alike.edges link),
    alike.batch.symm⟩

theorem trans
    {third : Graph}
    (first : graph.Alike other)
    (second : other.Alike third) :
    graph.Alike third where
  vertices := first.vertices.trans second.vertices
  edges link :=
    optionRel_trans (fun _ _ _ left right => left.trans right)
      (first.edges link)
      (second.edges link)
  batch := first.batch.trans second.batch

/-- What is read off the links, numbers and histories of all edges agrees. -/
theorem filterMap_edges {α : Type} (alike : graph.Alike other)
    (read : Link → EdgeId → EdgeHistory → Option α) :
    graph.edges.toList.filterMap
      (fun (link, edge) => read link edge.id edge.history) =
      other.edges.toList.filterMap
        (fun (link, edge) => read link edge.id edge.history) := by
  have maps : (graph.edges.map fun _ edge => (edge.id, edge.history)) =
      other.edges.map fun _ edge => (edge.id, edge.history) := by
    refine Std.ExtTreeMap.ext_getElem? fun link => ?_
    rw [Std.ExtTreeMap.getElem?_map, Std.ExtTreeMap.getElem?_map]
    exact map_eq_of_optionRel (alike.edges link) fun left right same => by
      rw [same.id, same.history]
  have lists := congrArg Std.ExtTreeMap.toList maps
  rw [Std.ExtTreeMap.toList_map, Std.ExtTreeMap.toList_map] at lists
  have reads := congrArg
    (List.filterMap fun entry : Link × EdgeId × EdgeHistory =>
      read entry.1 entry.2.1 entry.2.2) lists
  simpa only [List.filterMap_map, Function.comp_def] using reads

/-- Alike graphs list the same links in every version. -/
theorem links_edgesIn (alike : graph.Alike other) (version : Version) :
    (graph.edgesIn version).map Prod.fst =
      (other.edgesIn version).map Prod.fst := by
  simp only [edgesIn, ← List.filterMap_eq_map', List.filterMap_filter]
  exact alike.filterMap_edges fun link _ history =>
    if history.visible version then some link else none

theorem countEdges (alike : graph.Alike other) (version : Version) :
    graph.countEdges version = other.countEdges version := by
  simpa [Graph.countEdges]
    using congrArg List.length (alike.links_edgesIn version)

/-- Alike graphs have the same touched links in every version. -/
theorem batchIn (alike : graph.Alike other) (version : Version) :
    graph.batchIn version = other.batchIn version := by
  unfold Graph.batchIn
  rw [alike.batch]
  refine List.filter_congr fun link _ => ?_
  have related := alike.edges link
  generalize graph.edges[link]? = stored at related ⊢
  generalize other.edges[link]? = counterpart at related ⊢
  cases related with
  | none => rfl
  | some same => simp [same.history]

theorem sources
    (alike : graph.Alike other)
    (version : Version)
    (direction : Direction) :
    graph.sources version direction = other.sources version direction := by
  simp only [Graph.sources, alike.batchIn, alike.links_edgesIn]

/-- Alike graphs have the same neighbors. -/
theorem neighbors
    (alike : graph.Alike other)
    (vertex : VertexId)
    (direction : Direction)
    (version : Version)
    (type : Option TypeId) :
    graph.walkable.neighbors vertex direction version type =
      other.walkable.neighbors vertex direction version type := by
  simp only [WalkableGraph.neighbors, walkable, incident, List.filterMap_filter]
  exact congrArg Id.ascending (alike.filterMap_edges fun link _ history =>
    if decide (link.near direction = vertex) then
      if history.visible version ∧ link.hasType type then
        some (link.far direction) else none
    else none)

theorem edgesJoining (alike : graph.Alike other) (source target : VertexId)
    (type : Option TypeId) (version : Version) :
    graph.walkable.edgesJoining source target type version =
      other.walkable.edgesJoining source target type version := by
  simp only [WalkableGraph.edgesJoining, walkable, joining, incident,
    List.filterMap_filter]
  exact alike.filterMap_edges fun link id history =>
    if decide (link.near .forward = source) then
      if decide (link.target = target) then
        if history.visible version ∧ link.hasType type then some id else none
      else none
    else none

/-- In sound graphs the numbers of edges are read off the table of edges. -/
theorem links
    (alike : graph.Alike other)
    (sound : graph.Sound)
    (otherSound : other.Sound) :
    graph.links = other.links := by
  refine Std.ExtTreeMap.ext_getElem? fun id => Option.ext fun link => ?_
  rw [sound.links_iff, otherSound.links_iff]
  have related := alike.edges link
  generalize graph.edges[link]? = stored at related ⊢
  generalize other.edges[link]? = counterpart at related ⊢
  cases related with
  | none => rfl
  | some same => simp [same.id]

/-- Looking an edge up by its number finds alike edges, or none, in alike sound
graphs. -/
theorem edge?
    (alike : graph.Alike other)
    (sound : graph.Sound)
    (otherSound : other.Sound)
    (id : EdgeId) :
    Option.Rel (fun found counterpart =>
        found.1 = counterpart.1 ∧ found.2.Alike counterpart.2)
      (graph.edge? id) (other.edge? id) := by
  unfold Graph.edge?
  rw [alike.links sound otherSound]
  refine optionRel_bind (optionRel_refl (fun _ => rfl) _) ?_
  rintro link _ rfl
  exact optionRel_bind (alike.edges link) fun edge counterpart same =>
    .some ⟨rfl, same⟩

/-- Sound graphs with the same tables answer every query alike. -/
theorem answersAs (alike : graph.Alike other) (sound : graph.Sound)
    (otherSound : other.Sound) : graph.AnswersAs other where
  vertexIds := by rw [vertexIds, vertexIds, alike.vertices]
  vertexType vertex := by rw [vertexType?, vertexType?, alike.vertices]
  vertexProperty vertex property := by
    rw [vertexProperty?, vertexProperty?, alike.vertices]
    exact optionRel_refl Value.Alike.refl _
  edge := alike.edge? sound otherSound
  edgeProperty id property :=
    optionRel_bind (alike.edge? sound otherSound id) fun _ _ same =>
      same.2.properties property
  edgesJoining := alike.edgesJoining
  neighbors := alike.neighbors
  sources := alike.sources
  countEdges := alike.countEdges

end Alike

end Graph

end DeltaGraph
