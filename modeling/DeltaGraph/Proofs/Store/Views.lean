import DeltaGraph.Proofs.Store.Reads

/-!
# One table of edges

Neighbors, edges between vertices, sources and counts are read in different
ways: some from the lists at a vertex, some from the list of the batch, some
from the numbers of the edges.  In a reachable store they are all views of one
table, which lists each edge once and whose edges end at known vertices.
-/

namespace DeltaGraph

/-- Edges listed with their links, each link and each number once. -/
structure EdgeTable where
  entries : List (Link × Edge)
  links_nodup : (entries.map Prod.fst).Nodup
  ids_nodup : (entries.map (·.2.id)).Nodup

/-- The table lists an edge of a version, of the type if one is given. -/
def EdgeTable.Shows (table : EdgeTable) (version : Version)
    (type : Option TypeId) (link : Link) (edge : Edge) : Prop :=
  (link, edge) ∈ table.entries ∧ edge.history.visible version = true ∧
    link.hasType type = true

/-- Everything that can be read of the edges of a store is a view of a
table. -/
structure Store.Views (store : Store) (table : EdgeTable) : Prop where
  edge? (id : EdgeId) (link : Link) (edge : Edge) :
    store.edge? id = some (link, edge) ↔
      (link, edge) ∈ table.entries ∧ edge.id = id
  edgeProperty? (id : EdgeId) (property : PropertyId) (value : Value) :
    store.edgeProperty? id property = some value ↔
      ∃ link edge, (link, edge) ∈ table.entries ∧ edge.id = id ∧
        edge.properties[property]? = some value
  neighbors_ascending (vertex : VertexId) (direction : Direction)
    (version : Version) (type : Option TypeId) :
    (store.neighbors vertex direction version type).Pairwise (· < ·)
  /-- The neighbors are the other ends of the edges at the vertex. -/
  mem_neighbors (vertex other : VertexId) (direction : Direction)
    (version : Version) (type : Option TypeId) :
    other ∈ store.neighbors vertex direction version type ↔
      ∃ link edge, table.Shows version type link edge ∧
        link.near direction = vertex ∧ link.far direction = other
  /-- Followed backward, an edge leads to where it is followed forward
  from. -/
  neighbors_reverse (source target : VertexId) (version : Version)
    (type : Option TypeId) :
    target ∈ store.neighbors source .forward version type ↔
      source ∈ store.neighbors target .backward version type
  neighbors_joined (source target : VertexId) (version : Version)
    (type : Option TypeId) :
    target ∈ store.neighbors source .forward version type ↔
      store.edgesJoining source target type version ≠ []
  /-- The edges that join two vertices, in strictly ascending order of their
  types. -/
  edgesJoining (source target : VertexId) (type : Option TypeId)
    (version : Version) :
    ∃ joining : List (Link × Edge),
      store.edgesJoining source target type version =
        joining.map (·.2.id) ∧
      joining.Pairwise (fun entry later => entry.1.type < later.1.type) ∧
      ∀ link edge, (link, edge) ∈ joining ↔
        table.Shows version type link edge ∧ link.source = source ∧
          link.target = target
  /-- Among the edges that join two vertices the one of the smallest type is
  chosen. -/
  resolveEdge (source target : VertexId) (type : Option TypeId)
    (version : Version) (id : EdgeId) :
    store.resolveEdge source target type version = .ok id ↔
      ∃ link edge, table.Shows version type link edge ∧
        link.source = source ∧ link.target = target ∧ edge.id = id ∧
        ∀ other another, table.Shows version type other another →
          other.source = source → other.target = target →
            link.type ≤ other.type
  sources_ascending (version : Version) (direction : Direction) :
    (store.sources version direction).Pairwise (· < ·)
  mem_sources (vertex : VertexId) (version : Version)
    (direction : Direction) :
    vertex ∈ store.sources version direction ↔
      store.neighbors vertex direction version none ≠ []
  /-- The sources found in the batch are those that are found in all lists. -/
  sources_of_batch (version : Version) (direction : Direction) :
    version.isDifference = true →
      Id.sorted (store.endsInBatch version direction) =
        Id.sorted (store.endsInLists version direction)
  countEdges (version : Version) :
    store.countEdges version =
      table.entries.countP fun (_, edge) => edge.history.visible version
  ends (link : Link) (edge : Edge) (direction : Direction) :
    (link, edge) ∈ table.entries → link.near direction ∈ store.vertexIds

namespace Graph.Sound

variable {graph : Graph}

/-- The table of a sound graph. -/
def table (sound : graph.Sound) : EdgeTable where
  entries := graph.edges.toList
  links_nodup := by
    rw [Std.ExtTreeMap.map_fst_toList_eq_keys]
    exact Std.ExtTreeMap.nodup_keys
  ids_nodup := by
    refine List.pairwise_map.mpr
      (Std.ExtTreeMap.distinct_keys_toList.imp_of_mem ?_)
    rintro ⟨link, edge⟩ ⟨other, another⟩ member otherMember different same
    have unique := sound.link_unique (mem_entries.mp member)
      (mem_entries.mp otherMember) same
    exact different (by simp [unique])

theorem shows_table (sound : graph.Sound) {version : Version}
    {type : Option TypeId} {link : Link} {edge : Edge} :
    sound.table.Shows version type link edge ↔
      graph.Shows version type link edge := by
  rw [EdgeTable.Shows, Shows, table, mem_entries]

/-- A vertex is a source exactly if it has a neighbor. -/
theorem mem_sources_iff_neighbors (sound : graph.Sound) {vertex : VertexId}
    {version : Version} {direction : Direction} :
    vertex ∈ graph.sources version direction ↔
      graph.walkable.neighbors vertex direction version none ≠ [] := by
  rw [sound.mem_sources, ← List.isEmpty_eq_false_iff,
    List.isEmpty_eq_false_iff_exists_mem]
  simp only [mem_neighbors, Shows]
  constructor
  · rintro ⟨link, edge, found, visible, near⟩
    exact ⟨_, link, edge, ⟨found, visible, rfl⟩, near, rfl⟩
  · rintro ⟨_, link, edge, ⟨found, visible, _⟩, near, _⟩
    exact ⟨link, edge, found, visible, near⟩

end Graph.Sound

namespace Store

variable {store : Store} {graph : Graph}

/-- A store that represents a sound graph shows the table of the graph. -/
theorem Represents.views_table (represents : store.Represents graph)
    (sound : graph.Sound) : store.Views sound.table where
  edge? id link edge := by
    rw [represents.edge? sound, Graph.Sound.table, Graph.mem_entries]
    exact sound.edge?_eq_some_iff
  edgeProperty? id property value := by
    simp only [represents.edgeProperty? sound, Graph.Sound.table,
      Graph.mem_entries, Graph.edgeProperty?, Option.bind_eq_bind,
      Option.bind_eq_some_iff, Prod.exists, sound.edge?_eq_some_iff,
      and_assoc]
  neighbors_ascending vertex direction version type := by
    rw [represents.neighbors]
    exact graph.pairwise_neighbors vertex direction version type
  mem_neighbors vertex other direction version type := by
    simp only [represents.neighbors, sound.shows_table, Graph.mem_neighbors]
  neighbors_reverse source target version type := by
    simp only [represents.neighbors, Graph.mem_neighbors, Link.near, Link.far,
      and_comm]
  neighbors_joined source target version type := by
    rw [represents.neighbors, represents.edgesJoining,
      ← List.isEmpty_eq_false_iff, List.isEmpty_eq_false_iff_exists_mem]
    simp only [Graph.mem_neighbors, Graph.mem_edgesJoining, Link.near,
      Link.far]
    constructor
    · rintro ⟨link, edge, shown, fromSource, toTarget⟩
      exact ⟨_, link, edge, shown, fromSource, toTarget, rfl⟩
    · rintro ⟨_, link, edge, shown, fromSource, toTarget, _⟩
      exact ⟨link, edge, shown, fromSource, toTarget⟩
  edgesJoining source target type version := by
    rw [represents.edgesJoining]
    refine ⟨graph.entriesJoining source target type version,
      graph.edgesJoining_eq_map .., graph.pairwise_entriesJoining ..,
      fun link edge => ?_⟩
    rw [Graph.mem_entriesJoining, sound.shows_table]
  resolveEdge source target type version id := by
    rw [represents.resolveEdge]
    simp only [sound.shows_table]
    exact graph.resolveEdge_eq_ok_iff source target type version id
  sources_ascending version direction := Id.pairwise_sorted _
  mem_sources vertex version direction := by
    rw [represents.sources sound, represents.neighbors]
    exact sound.mem_sources_iff_neighbors
  sources_of_batch version direction :=
    represents.endsInBatch_eq sound direction
  countEdges version := by
    rw [represents.countEdges]
    exact List.countP_eq_length_filter.symm
  ends link edge direction member := by
    rw [represents.vertexIds]
    exact Graph.mem_vertexIds.mpr
      (sound.ends (Graph.mem_entries.mp member) direction)

/-- Whatever was done to it, a store shows one table of edges. -/
theorem reads_one_table (reachable : store.Reachable) :
    ∃ table : EdgeTable, store.Views table := by
  obtain ⟨graph, reached, represents⟩ := reachable.exists_graph
  exact ⟨reached.sound.table, represents.views_table reached.sound⟩

/-- A batch that removes a committed edge and adds it again, and that adds and
removes an edge parallel to it. -/
theorem reads_one_table_during_batch :
    let start := (empty.stage (.addEdge ⟨⟨1⟩, ⟨2⟩, .default⟩ [])).commit.2
    let store := start.stageAll
      [.removeEdge ⟨⟨1⟩, ⟨2⟩, .default⟩, .addEdge ⟨⟨1⟩, ⟨2⟩, .default⟩ [],
        .addEdge ⟨⟨1⟩, ⟨2⟩, ⟨1⟩⟩ [], .removeEdge ⟨⟨1⟩, ⟨2⟩, ⟨1⟩⟩]
    store.Reachable ∧
      store.edgesJoining ⟨1⟩ ⟨2⟩ none .removals = [⟨0⟩, ⟨1⟩] ∧
      ∃ table : EdgeTable, store.Views table := by
  intro start store
  have reachable : store.Reachable :=
    (Reachable.empty.stage _).commit.stageAll _
  exact ⟨reachable, by decide +kernel, reads_one_table reachable⟩

end Store

end DeltaGraph
