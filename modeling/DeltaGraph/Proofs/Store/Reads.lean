import DeltaGraph.Proofs.Graph.Table
import DeltaGraph.Proofs.Store.Run

/-!
# Reads of a store

A store answers every question as the graph does that it represents.  The
answers come from halving, from neighbors that are next to each other, and from
the list of the batch, and they are the same lists because they have the same
members in the same order.
-/

namespace DeltaGraph

/-- Numbers in order, each once. -/
theorem pairwise_eraseReps {kind : Numbered} {ids : List (Id kind)}
    (ascending : ids.Pairwise (· ≤ ·)) : ids.eraseReps.Pairwise (· < ·) := by
  induction ids with
  | nil => exact .nil
  | cons first rest inductionHypothesis =>
      obtain ⟨least, restAscending⟩ := List.pairwise_cons.mp ascending
      cases rest with
      | nil => exact List.pairwise_singleton _ first
      | cons second rest =>
          rw [eraseReps_cons_cons]
          split
          · exact inductionHypothesis restAscending
          · rename_i different
            refine List.pairwise_cons.mpr
              ⟨fun id member => ?_, inductionHypothesis restAscending⟩
            have next := least second (.head _)
            have later : second ≤ id := by
              rcases List.mem_cons.mp (mem_eraseReps.mp member) with
                rfl | member
              · exact Nat.le_refl _
              · exact (List.pairwise_cons.mp restAscending).1 id member
            have apart : first.number ≠ second.number := fun same =>
              different (beq_iff_eq.mpr (Id.ext same))
            rw [Id.le_def] at next later
            rw [Id.lt_def]
            omega

namespace Id

@[simp] theorem mem_sorted {kind : Numbered} {id : Id kind}
    {ids : List (Id kind)} : id ∈ sorted ids ↔ id ∈ ids := by
  rw [sorted, mem_eraseReps, List.mem_mergeSort]

/-- Sorted numbers are strictly ascending. -/
theorem pairwise_sorted {kind : Numbered} (ids : List (Id kind)) :
    (sorted ids).Pairwise (· < ·) := by
  let le (left right : Id kind) : Bool := left ≤ right
  have transitive (first second third : Id kind) (lower : le first second)
      (upper : le second third) : le first third :=
    decide_eq_true (Nat.le_trans (of_decide_eq_true lower)
      (of_decide_eq_true upper))
  have total (first second : Id kind) : le first second || le second first :=
    Bool.or_eq_true_iff.mpr ((Nat.le_total first.number second.number).imp
      (decide_eq_true ·) (decide_eq_true ·))
  have ordered := List.pairwise_mergeSort transitive total ids
  exact pairwise_eraseReps (ordered.imp (of_decide_eq_true ·))

end Id

namespace Adjacent

instance : Std.Irrefl Precedes where
  irrefl entry precedes := by
    rw [Precedes, isBefore_iff] at precedes
    omega

instance : Std.Antisymm Precedes where
  antisymm entry later first second := by
    rw [Precedes, isBefore_iff] at first second
    omega

end Adjacent

namespace Store

variable {store : Store} {graph : Graph}

namespace Represents

/-! ## Edges at a vertex -/

/-- The entries in the list of a vertex whose edges belong to a version. -/
theorem mem_entries (represents : store.Represents graph)
    (direction : Direction) (vertex : VertexId) (version : Version)
    (entry : Adjacent) :
    entry ∈ (store.adjacency direction).entriesAt vertex ∧
        store.shows version entry = true ↔
      ∃ edge, graph.edges[direction.link vertex entry.neighbor entry.type]? =
          some edge ∧
        edge.history.visible version = true ∧ edge.id = entry.edge := by
  rw [represents.holds.entries, shows]
  constructor
  · rintro ⟨present, shown⟩
    obtain ⟨edge, found, number⟩ := Option.map_eq_some_iff.mp present
    rw [← number, represents.holds.getElem?_of_table found] at shown
    exact ⟨edge, found, shown, number⟩
  · rintro ⟨edge, found, shown, number⟩
    refine ⟨Option.map_eq_some_iff.mpr ⟨edge, found, number⟩, ?_⟩
    rw [← number, represents.holds.getElem?_of_table found]
    exact shown

end Represents

/-- The entries in the list of a vertex whose edges belong to a version and
have the type, if one is given. -/
def shownAt (store : Store) (vertex : VertexId) (direction : Direction)
    (version : Version) (type : Option TypeId) : List Adjacent :=
  ((store.adjacency direction).entriesAt vertex).filter fun entry =>
    entry.hasType type && store.shows version entry

/-- The edges from a vertex to another one are those of its entries. -/
theorem edgesJoining_eq {store : Store}
    (ascending : store.outgoing.Ascending) (source target : VertexId)
    (type : Option TypeId) (version : Version) :
    store.edgesJoining source target type version =
      ((store.shownAt source .forward version type).filter
        (·.neighbor = target)).map Adjacent.edge := by
  have list := (ascending source).toNeighbor_eq target
  rw [shownAt, List.filter_filter]
  simp only [Bool.and_comm (x := decide _)]
  rw [← List.filter_filter]
  rw [edgesJoining, AdjacencyMap.entriesAt, adjacency]
  rw [Std.ExtTreeMap.getD_eq_getD_getElem?] at list ⊢
  cases found : store.outgoing[source]? with
  | none => rfl
  | some entries =>
      rw [found] at list
      exact congrArg _ (congrArg _ list)

/-- The neighbors of a vertex are those of the entries in its list. -/
theorem neighbors_eq (store : Store) (vertex : VertexId)
    (direction : Direction) (version : Version) (type : Option TypeId) :
    store.neighbors vertex direction version type =
      ((store.shownAt vertex direction version type).map
        Adjacent.neighbor).eraseReps := by
  rw [neighbors, shownAt, AdjacencyMap.entriesAt,
    Std.ExtTreeMap.getD_eq_getD_getElem?]
  cases (store.adjacency direction)[vertex]? <;> rfl

namespace Represents

theorem mem_shownAt (represents : store.Represents graph)
    {direction : Direction} {vertex : VertexId} {version : Version}
    {type : Option TypeId} {entry : Adjacent} :
    entry ∈ store.shownAt vertex direction version type ↔
      ∃ edge, graph.Shows version type
          (direction.link vertex entry.neighbor entry.type) edge ∧
        edge.id = entry.edge := by
  have hasType : entry.hasType type =
      (direction.link vertex entry.neighbor entry.type).hasType type := by
    cases direction <;> rfl
  rw [shownAt, List.mem_filter, Bool.and_eq_true, and_left_comm,
    represents.mem_entries, hasType]
  simp only [Graph.Shows]
  constructor
  · rintro ⟨typed, edge, found, shown, number⟩
    exact ⟨edge, ⟨found, shown, typed⟩, number⟩
  · rintro ⟨edge, ⟨found, shown, typed⟩, number⟩
    exact ⟨typed, edge, found, shown, number⟩

theorem pairwise_shownAt (represents : store.Represents graph)
    (vertex : VertexId) (direction : Direction) (version : Version)
    (type : Option TypeId) :
    (store.shownAt vertex direction version type).Pairwise
      Adjacent.Precedes :=
  (represents.holds.ascending direction vertex).filter _

/-- The neighbors of a vertex are those of the graph. -/
theorem neighbors (represents : store.Represents graph) (vertex : VertexId)
    (direction : Direction) (version : Version) (type : Option TypeId) :
    store.neighbors vertex direction version type =
      graph.walkable.neighbors vertex direction version type := by
  rw [neighbors_eq]
  refine eq_of_ascending (pairwise_eraseReps ?_)
    (graph.pairwise_neighbors ..) fun other => ?_
  · refine List.pairwise_map.mpr
      ((represents.pairwise_shownAt ..).imp fun {entry later} precedes => ?_)
    rw [Adjacent.Precedes, Adjacent.isBefore_iff] at precedes
    rw [Id.le_def]
    omega
  · simp only [mem_eraseReps, List.mem_map, represents.mem_shownAt,
      Graph.mem_neighbors]
    constructor
    · rintro ⟨entry, ⟨edge, shown, _⟩, rfl⟩
      exact ⟨_, edge, shown, direction.near_link .., direction.far_link ..⟩
    · rintro ⟨link, edge, shown, rfl, rfl⟩
      refine ⟨⟨link.far direction, link.type, edge.id⟩, ⟨edge, ?_, rfl⟩, rfl⟩
      rw [Direction.link_near_far]
      exact shown

/-- The edges that join two vertices are those of the graph. -/
theorem edgesJoining (represents : store.Represents graph)
    (source target : VertexId) (type : Option TypeId) (version : Version) :
    store.edgesJoining source target type version =
      graph.walkable.edgesJoining source target type version := by
  let entryOf (listed : Link × Edge) : Adjacent :=
    ⟨target, listed.1.type, listed.2.id⟩
  have entries : (store.shownAt source .forward version type).filter
        (·.neighbor = target) =
      (graph.entriesJoining source target type version).map entryOf := by
    refine (represents.pairwise_shownAt ..).filter _ |>.eq_of_mem_iff ?_ ?_
    · refine List.pairwise_map.mpr
        ((graph.pairwise_entriesJoining ..).imp fun {entry later} less => ?_)
      rw [Adjacent.Precedes, Adjacent.isBefore_iff]
      exact .inr ⟨rfl, less⟩
    · rintro ⟨neighbor, entryType, id⟩
      simp only [List.mem_filter, represents.mem_shownAt, List.mem_map,
        Prod.exists, Graph.mem_entriesJoining, decide_eq_true_eq]
      constructor
      · rintro ⟨⟨edge, shown, rfl⟩, rfl⟩
        exact ⟨_, edge, ⟨shown, rfl, rfl⟩, rfl⟩
      · rintro ⟨link, edge, ⟨shown, rfl, rfl⟩, same⟩
        cases same
        exact ⟨⟨edge, shown, rfl⟩, rfl⟩
  rw [edgesJoining_eq (represents.holds.ascending .forward), entries,
    List.map_map, Graph.edgesJoining_eq_map]
  rfl

/-- The first of the edges that join two vertices is that of the graph. -/
theorem resolveEdge (represents : store.Represents graph)
    (source target : VertexId) (type : Option TypeId) (version : Version) :
    store.resolveEdge source target type version =
      graph.walkable.resolveEdge source target type version := by
  rw [Store.resolveEdge, WalkableGraph.resolveEdge, represents.edgesJoining]
  cases graph.walkable.edgesJoining source target type version <;> rfl

/-! ## Sources -/

/-- Every edge of a difference version is found in the batch. -/
theorem mem_endsInBatch (represents : store.Represents graph)
    (sound : graph.Sound) {version : Version}
    (difference : version.isDifference = true) {direction : Direction}
    {vertex : VertexId} :
    vertex ∈ store.endsInBatch version direction ↔
      ∃ (link : Link) (edge : Edge), graph.edges[link]? = some edge ∧
        edge.history.visible version = true ∧
        link.near direction = vertex := by
  simp only [endsInBatch, List.mem_map, List.mem_filter, List.mem_filterMap]
  constructor
  · rintro ⟨stored, ⟨⟨id, _, found⟩, shown⟩, near⟩
    exact ⟨_, _, (represents.holds.edges id stored).mp found, shown, near⟩
  · rintro ⟨link, edge, found, shown, near⟩
    have stored := represents.holds.getElem?_of_table found
    refine ⟨_, ⟨⟨edge.id, ?_, stored⟩, shown⟩, near⟩
    by_contra untouched
    have committed := represents.committed sound stored untouched
    rw [show edge.history = .committed from committed] at shown
    cases version <;> cases difference <;> cases shown

/-- The ends of the edges of a version are found in the lists. -/
theorem mem_endsInLists (represents : store.Represents graph)
    {version : Version} {direction : Direction} {vertex : VertexId} :
    vertex ∈ store.endsInLists version direction ↔
      ∃ (link : Link) (edge : Edge), graph.edges[link]? = some edge ∧
        edge.history.visible version = true ∧
        link.near direction = vertex := by
  have listed : vertex ∈ store.endsInLists version direction ↔
      ∃ entry, entry ∈ (store.adjacency direction).entriesAt vertex ∧
        store.shows version entry = true := by
    simp only [endsInLists, List.mem_map, List.mem_filter, Prod.exists,
      Std.ExtTreeMap.mem_toList_iff_getElem?_eq_some, exists_and_right,
      exists_eq_right]
    constructor
    · rintro ⟨list, found, shown⟩
      obtain ⟨entry, member, visible⟩ := Array.any_eq_true'.mp shown
      refine ⟨entry, ?_, visible⟩
      rw [AdjacencyMap.entriesAt_of_getElem? found]
      exact Array.mem_toList_iff.mpr member
    · rintro ⟨entry, member, visible⟩
      cases found : (store.adjacency direction)[vertex]? with
      | none =>
          rw [AdjacencyMap.entriesAt, Std.ExtTreeMap.getD_eq_getD_getElem?,
            found] at member
          cases member
      | some list =>
          rw [AdjacencyMap.entriesAt_of_getElem? found] at member
          exact ⟨list, rfl, Array.any_eq_true'.mpr
            ⟨entry, Array.mem_toList_iff.mp member, visible⟩⟩
  rw [listed]
  simp only [represents.mem_entries]
  constructor
  · rintro ⟨entry, edge, found, shown, _⟩
    exact ⟨_, edge, found, shown, direction.near_link ..⟩
  · rintro ⟨link, edge, found, shown, rfl⟩
    refine ⟨⟨link.far direction, link.type, edge.id⟩, edge, ?_, shown, rfl⟩
    rw [Direction.link_near_far]
    exact found

/-- Scanning the batch for a difference version finds what scanning all lists
finds. -/
theorem endsInBatch_eq (represents : store.Represents graph)
    (sound : graph.Sound) {version : Version} (direction : Direction)
    (difference : version.isDifference = true) :
    Id.sorted (store.endsInBatch version direction) =
      Id.sorted (store.endsInLists version direction) := by
  refine eq_of_ascending (Id.pairwise_sorted _) (Id.pairwise_sorted _)
    fun vertex => ?_
  rw [Id.mem_sorted, Id.mem_sorted,
    represents.mem_endsInBatch sound difference, represents.mem_endsInLists]

/-- The sources of a version are those of the graph. -/
theorem sources (represents : store.Represents graph) (sound : graph.Sound)
    (version : Version) (direction : Direction) :
    store.sources version direction = graph.sources version direction := by
  refine eq_of_ascending (Id.pairwise_sorted _) (graph.pairwise_sources ..)
    fun vertex => ?_
  rw [sound.mem_sources, Store.sources, Id.mem_sorted]
  split
  · rename_i difference
    exact represents.mem_endsInBatch sound difference
  · exact represents.mem_endsInLists

/-! ## Vertices and edges by their numbers -/

theorem vertexIds (represents : store.Represents graph) :
    store.vertexIds = graph.vertexIds := by
  refine eq_of_ascending (Id.pairwise_sorted _) graph.pairwise_vertexIds
    fun vertex => ?_
  rw [Store.vertexIds, Id.mem_sorted, represents.vertices]
  rfl

theorem edge? (represents : store.Represents graph) (sound : graph.Sound)
    (id : EdgeId) : store.edge? id = graph.edge? id := by
  refine Option.ext fun entry => ?_
  obtain ⟨link, edge⟩ := entry
  rw [sound.edge?_eq_some_iff]
  exact represents.holds.getElem?_iff

theorem edgeProperty? (represents : store.Represents graph)
    (sound : graph.Sound) (id : EdgeId) (property : PropertyId) :
    store.edgeProperty? id property = graph.edgeProperty? id property := by
  rw [Store.edgeProperty?, Graph.edgeProperty?, ← represents.edge? sound,
    Store.edge?]
  cases store.edges[id]? <;> rfl

theorem countEdges (represents : store.Represents graph) (version : Version) :
    store.countEdges version = graph.countEdges version := by
  rw [Store.countEdges, Graph.countEdges, Graph.edgesIn,
    ← List.countP_eq_length_filter]
  exact represents.countP_edges (·.visible version)

theorem isPending (represents : store.Represents graph) :
    store.isPending = graph.isPending := by
  rw [Store.isPending, Graph.isPending, Bool.not_inj_iff,
    Std.ExtTreeSet.isEmpty_eq_size_beq_zero, ← represents.length_batch]
  cases store.batch <;> rfl

/-- Every question has the same answer in a store and in the graph that it
represents. -/
theorem reads (represents : store.Represents graph) (sound : graph.Sound) :
    store.reads = graph.reads := by
  have vertexType? : store.vertexType? = graph.vertexType? := by
    funext vertex
    rw [Store.vertexType?, represents.vertices]
    rfl
  have vertexProperty? : store.vertexProperty? = graph.vertexProperty? := by
    funext vertex property
    rw [Store.vertexProperty?, represents.vertices]
    rfl
  rw [Store.reads, Graph.reads, GraphReads.mk.injEq]
  exact ⟨represents.vertexIds, vertexType?, vertexProperty?,
    funext (represents.edge? sound),
    funext₂ (represents.edgeProperty? sound),
    by funext; apply represents.neighbors,
    by funext; apply represents.edgesJoining,
    by funext; apply represents.resolveEdge,
    funext₂ (represents.sources sound), funext represents.countEdges,
    represents.isPending⟩

end Represents

/-- Every question to a reachable store has the answer of the graph that it
keeps. -/
theorem Reachable.reads (reachable : store.Reachable) :
    store.reads = store.graph.reads := by
  obtain ⟨reached, represents⟩ := reachable.represents
  exact represents.reads reached.sound

end Store

end DeltaGraph
