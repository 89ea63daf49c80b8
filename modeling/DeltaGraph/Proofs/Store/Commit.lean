import DeltaGraph.Proofs.Store.Reads
import Mathlib.Data.Finset.Card

/-!
# Committing a batch

A commit makes the edges that will be seen after the batch the committed ones.
It counts the edges that came and those that went, which are among the edges
that the batch touched.  The edges that went have left all tables, and with
nothing pending there is nothing left to commit or to take back.
-/

namespace DeltaGraph

namespace Store

variable {store other : Store} {graph : Graph}

/-! ## The edges of a version -/

/-- The numbers, links and properties of the edges of a version, in order of
their numbers. -/
def contents (store : Store) (version : Version) :
    List (EdgeId × Link × Properties) :=
  (store.edges.toList.filter fun (_, stored) =>
    stored.history.visible version).map fun (id, stored) =>
      (id, stored.link, stored.properties)

theorem mem_contents {version : Version} {id : EdgeId} {link : Link}
    {properties : Properties} :
    (id, link, properties) ∈ store.contents version ↔
      ∃ history, store.edges[id]? = some ⟨link, history, properties⟩ ∧
        history.visible version = true := by
  simp only [contents, List.mem_map, List.mem_filter, Prod.exists,
    Std.ExtTreeMap.mem_toList_iff_getElem?_eq_some, Prod.mk.injEq]
  constructor
  · rintro ⟨_, stored, ⟨found, shown⟩, rfl, rfl, rfl⟩
    exact ⟨stored.history, found, shown⟩
  · rintro ⟨history, found, shown⟩
    exact ⟨id, _, ⟨found, shown⟩, rfl, rfl, rfl⟩

/-- The numbers of the edges of a version. -/
def idsIn (store : Store) (version : Version) : Finset EdgeId :=
  ((store.contents version).map Prod.fst).toFinset

theorem mem_idsIn {version : Version} {id : EdgeId} :
    id ∈ store.idsIn version ↔
      ∃ stored, store.edges[id]? = some stored ∧
        stored.history.visible version = true := by
  simp only [idsIn, List.mem_toFinset, List.mem_map, Prod.exists,
    mem_contents, exists_and_right, exists_eq_right]
  constructor
  · rintro ⟨link, properties, history, found, shown⟩
    exact ⟨_, found, shown⟩
  · rintro ⟨stored, found, shown⟩
    exact ⟨stored.link, stored.properties, stored.history, found, shown⟩

/-- The stored edges that pass a test are counted by their numbers. -/
theorem card_eq_countP (store : Store) (test : EdgeHistory → Bool)
    (ids : Finset EdgeId)
    (members : ∀ id, id ∈ ids ↔ ∃ stored, store.edges[id]? = some stored ∧
      test stored.history = true) :
    ids.card =
      store.edges.toList.countP fun (_, stored) => test stored.history := by
  have numbers : ids = ((store.edges.toList.filter fun (_, stored) =>
      test stored.history).map Prod.fst).toFinset := by
    ext id
    simp only [members, List.mem_toFinset, List.mem_map, List.mem_filter,
      Prod.exists, Std.ExtTreeMap.mem_toList_iff_getElem?_eq_some,
      exists_and_right, exists_eq_right]
  rw [numbers, List.toFinset_card_of_nodup (nodup_keys_filter _ _),
    List.length_map, List.countP_eq_length_filter]

theorem countEdges_eq_card (store : Store) (version : Version) :
    store.countEdges version = (store.idsIn version).card :=
  (store.card_eq_countP (·.visible version) _ fun _ => mem_idsIn).symm

theorem card_idsIn_sdiff (store : Store) (version another : Version) :
    (store.idsIn version \ store.idsIn another).card =
      store.edges.toList.countP fun (_, stored) =>
        stored.history.visible version &&
          !stored.history.visible another := by
  refine store.card_eq_countP
    (fun history => history.visible version && !history.visible another) _
      fun id => ?_
  rw [Finset.mem_sdiff, mem_idsIn, mem_idsIn]
  cases store.edges[id]? with
  | none => simp
  | some stored => simp

/-! ## Versions that read alike -/

/-- A version of a store reads like a version of another one. -/
structure ReadsLike (store : Store) (version : Version) (other : Store)
    (another : Version) : Prop where
  contents : store.contents version = other.contents another
  neighbors (vertex : VertexId) (direction : Direction)
    (type : Option TypeId) :
    store.neighbors vertex direction version type =
      other.neighbors vertex direction another type
  edgesJoining (source target : VertexId) (type : Option TypeId) :
    store.edgesJoining source target type version =
      other.edgesJoining source target type another
  sources (direction : Direction) :
    store.sources version direction = other.sources another direction
  countEdges : store.countEdges version = other.countEdges another

namespace Represents

/-- The edges of the graph in a version are the contents of the version. -/
theorem mem_contents (represents : store.Represents graph)
    {version : Version} {id : EdgeId} {link : Link}
    {properties : Properties} :
    (id, link, properties) ∈ store.contents version ↔
      ∃ history, graph.edges[link]? = some ⟨id, history, properties⟩ ∧
        history.visible version = true := by
  rw [Store.mem_contents]
  exact exists_congr fun history => and_congr_left' (represents.holds.edges ..)

/-- What the lists of a vertex show of a version is told by its contents. -/
theorem mem_shownAt_iff (represents : store.Represents graph)
    {direction : Direction} {vertex : VertexId} {version : Version}
    {type : Option TypeId} {entry : Adjacent} :
    entry ∈ store.shownAt vertex direction version type ↔
      entry.hasType type = true ∧ ∃ properties,
        (entry.edge, direction.link vertex entry.neighbor entry.type,
          properties) ∈ store.contents version := by
  rw [shownAt, List.mem_filter, Bool.and_eq_true, and_left_comm,
    represents.mem_entries]
  simp only [represents.mem_contents]
  refine and_congr_right fun _ => ?_
  constructor
  · rintro ⟨edge, found, shown, number⟩
    refine ⟨edge.properties, edge.history, ?_, shown⟩
    rw [found, ← number]
  · rintro ⟨properties, history, found, shown⟩
    exact ⟨_, found, shown, rfl⟩

/-- The sources of a version are the ends of its edges. -/
theorem mem_sources_iff (represents : store.Represents graph)
    (sound : graph.Sound) {version : Version} {direction : Direction}
    {vertex : VertexId} :
    vertex ∈ store.sources version direction ↔
      ∃ id link properties, (id, link, properties) ∈ store.contents version ∧
        link.near direction = vertex := by
  rw [represents.sources sound, sound.mem_sources]
  simp only [represents.mem_contents]
  constructor
  · rintro ⟨link, edge, found, shown, near⟩
    exact ⟨edge.id, link, edge.properties, ⟨edge.history, found, shown⟩, near⟩
  · rintro ⟨id, link, properties, ⟨history, found, shown⟩, near⟩
    exact ⟨link, _, found, shown, near⟩

/-- Versions with the same contents read alike. -/
theorem readsLike (represents : store.Represents graph) (sound : graph.Sound)
    {otherGraph : Graph} (otherRepresents : other.Represents otherGraph)
    (otherSound : otherGraph.Sound) {version another : Version}
    (same : store.contents version = other.contents another) :
    store.ReadsLike version other another := by
  have shown (vertex : VertexId) (direction : Direction)
      (type : Option TypeId) :
      store.shownAt vertex direction version type =
        other.shownAt vertex direction another type := by
    refine (represents.pairwise_shownAt ..).eq_of_mem_iff
      (otherRepresents.pairwise_shownAt ..) fun entry => ?_
    rw [represents.mem_shownAt_iff, otherRepresents.mem_shownAt_iff, same]
  constructor
  case contents => exact same
  case neighbors =>
    intro vertex direction type
    rw [neighbors_eq, neighbors_eq, shown]
  case edgesJoining =>
    intro source target type
    rw [edgesJoining_eq (represents.holds.ascending .forward),
      edgesJoining_eq (otherRepresents.holds.ascending .forward), shown]
  case sources =>
    intro direction
    refine eq_of_ascending (Id.pairwise_sorted _) (Id.pairwise_sorted _)
      fun vertex => ?_
    exact (represents.mem_sources_iff sound).trans
      (same ▸ (otherRepresents.mem_sources_iff otherSound).symm)
  case countEdges =>
    rw [countEdges_eq_card, countEdges_eq_card, idsIn, idsIn, same]

end Represents

/-! ## What a commit leaves -/

/-- A commit leaves the edges of the merged version, all of them committed. -/
theorem Represents.edges_commit (represents : store.Represents graph)
    (sound : graph.Sound) :
    store.commit.2.edges = store.edges.filterMap fun _ stored =>
      if stored.history.visible .merged then
        some { stored with history := .committed }
      else none := by
  have later := (represents.commit sound).2
  refine Std.ExtTreeMap.ext_getElem? fun id => Option.ext fun kept => ?_
  have survives : graph.commit.2.edges[kept.link]? =
      graph.survivor? .merged kept.link := graph.getElem?_settle ..
  rw [later.holds.edges, survives, Graph.survivor?_eq_some_iff,
    Std.ExtTreeMap.getElem?_filterMap', Option.bind_eq_some_iff]
  simp only [Option.ite_none_right_eq_some, Option.some.injEq]
  constructor
  · rintro ⟨edge, found, shown, same⟩
    obtain ⟨link, history, properties⟩ := kept
    obtain ⟨number, old, values⟩ := edge
    cases same
    exact ⟨_, represents.holds.getElem?_of_table found, shown, rfl⟩
  · rintro ⟨stored, found, shown, rfl⟩
    exact ⟨_, (represents.holds.edges id stored).mp found, shown, rfl⟩

/-- With nothing pending, a version has all edges or none. -/
theorem Represents.contents_commit (represents : store.Represents graph)
    (sound : graph.Sound) (version : Version) :
    store.commit.2.contents version =
      if EdgeHistory.committed.visible version then store.contents .merged
      else [] := by
  have entries : store.commit.2.edges.toList =
      (store.edges.toList.filter fun (_, stored) =>
        stored.history.visible .merged).map fun (id, stored) =>
          (id, { stored with history := .committed }) := by
    rw [represents.edges_commit sound, Std.ExtTreeMap.toList_filterMap,
      ← List.filterMap_eq_map', List.filterMap_filter]
    congr 1
    funext entry
    dsimp only
    split <;> rfl
  rw [contents, entries, List.filter_map, List.map_map]
  cases shown : EdgeHistory.committed.visible version <;>
    simp [Function.comp_def, shown, contents]

/-- A number that has left all tables. -/
structure Unread (store : Store) (id : EdgeId) : Prop where
  edge : store.edge? id = none
  property (property : PropertyId) : store.edgeProperty? id property = none
  numbered (link : Link) : store.ids[link]? ≠ some id
  /-- It is in no list of a vertex. -/
  listed (direction : Direction) (vertex : VertexId) (entry : Adjacent) :
    entry ∈ (store.adjacency direction).entriesAt vertex → entry.edge ≠ id
  contents (version : Version) :
    id ∉ (store.contents version).map Prod.fst
  joining (source target : VertexId) (type : Option TypeId)
    (version : Version) : id ∉ store.edgesJoining source target type version
  resolved (source target : VertexId) (type : Option TypeId)
    (version : Version) :
    store.resolveEdge source target type version ≠ .ok id

/-- The number of an edge that is not stored leads nowhere. -/
theorem Represents.unread (represents : store.Represents graph) {id : EdgeId}
    (unused : store.edges[id]? = none) : store.Unread id := by
  have listed (direction : Direction) (vertex : VertexId) (entry : Adjacent)
      (member : entry ∈ (store.adjacency direction).entriesAt vertex) :
      entry.edge ≠ id := by
    rintro rfl
    obtain ⟨edge, found, number⟩ := Option.map_eq_some_iff.mp
      ((represents.holds.entries direction vertex entry).mp member)
    rw [← number, represents.holds.getElem?_of_table found] at unused
    cases unused
  have joining (source target : VertexId) (type : Option TypeId)
      (version : Version) :
      id ∉ store.edgesJoining source target type version := by
    rw [edgesJoining_eq (represents.holds.ascending .forward), List.mem_map]
    rintro ⟨entry, member, same⟩
    exact listed .forward source entry
      (List.mem_of_mem_filter (List.mem_of_mem_filter member)) same
  constructor
  case edge =>
    rw [Store.edge?, unused]
    rfl
  case property =>
    intro property
    rw [Store.edgeProperty?, unused]
    rfl
  case numbered =>
    intro link linked
    rw [represents.holds.ids] at linked
    obtain ⟨edge, found, rfl⟩ := Option.map_eq_some_iff.mp linked
    rw [represents.holds.getElem?_of_table found] at unused
    cases unused
  case listed => exact listed
  case contents =>
    intro version member
    obtain ⟨⟨_, link, properties⟩, present, rfl⟩ := List.mem_map.mp member
    obtain ⟨history, found, _⟩ := Store.mem_contents.mp present
    rw [found] at unused
    cases unused
  case joining => exact joining
  case resolved =>
    intro source target type version resolved
    refine joining source target type version ?_
    rw [Store.resolveEdge] at resolved
    cases first : (store.edgesJoining source target type version).head? with
    | none =>
        rw [first] at resolved
        cases resolved
    | some edge =>
        rw [first] at resolved
        cases resolved
        exact List.mem_of_head? first

/-! ## With nothing pending -/

/-- Nothing is pending in the store, and no vertex is noted. -/
structure Quiet (store : Store) : Prop where
  batch : store.batch = []
  seen : store.seen = ∅
  undo : store.undo = ∅

theorem Represents.quiet_commit (represents : store.Represents graph) :
    store.commit.2.Quiet := by
  rw [store.commit_eq represents.nodup, settled_eq]
  exact ⟨rfl, rfl, rfl⟩

/-- With nothing pending, a commit changes and counts nothing. -/
theorem Quiet.commit (quiet : store.Quiet) : store.commit = ({}, store) := by
  obtain ⟨batch, seen, undo⟩ := quiet
  have same : { store with batch := [], seen := ∅, undo := ∅ } = store := by
    rw [← batch, ← seen, ← undo]
  rw [Store.commit, batch]
  exact Prod.ext rfl same

/-- With nothing pending, a rollback changes and counts nothing. -/
theorem Quiet.rollback (quiet : store.Quiet) :
    store.rollback = (0, store) := by
  obtain ⟨batch, seen, undo⟩ := quiet
  have same : { store with batch := [], seen := ∅, undo := ∅ } = store := by
    rw [← batch, ← seen, ← undo]
  rw [Store.rollback, batch]
  have restored : store.undo.foldl restoreVertex store.vertices =
      store.vertices := by
    rw [undo]
    rfl
  refine Prod.ext rfl ?_
  simp only [List.foldl_nil, restored]
  exact same

/-- What committing a batch makes of a store. -/
structure MakesPermanent (store : Store) : Prop where
  /-- The committed edges are those that were seen after the batch, with their
  numbers and properties. -/
  permanent : store.commit.2.ReadsLike .permanent store .merged
  merged : store.commit.2.ReadsLike .merged store.commit.2 .permanent
  additions : store.commit.2.ReadsLike .additions .empty .additions
  removals : store.commit.2.ReadsLike .removals .empty .removals
  /-- The edges that are dropped have left all tables. -/
  dropped {id : EdgeId} {stored : StoredEdge}
    (found : store.edges[id]? = some stored)
    (gone : stored.history.visible .merged = false) :
    store.commit.2.Unread id
  /-- The vertices keep their types and properties. -/
  vertices : store.commit.2.vertices = store.vertices
  settled : store.commit.2.isPending = false
  promoted : store.commit.1.promoted =
    (store.idsIn .merged \ store.idsIn .permanent).card
  removed : store.commit.1.removed =
    (store.idsIn .permanent \ store.idsIn .merged).card
  /-- The store comes from the steps of a batch, which touched as many distinct
  edges as the commit tells. -/
  staged : ∃ (start : Store) (steps : List BatchStep),
    start.Settled ∧ start.stageAll steps = store
  touched {start : Store} {steps : List BatchStep} (settled : start.Settled)
    (staged : start.stageAll steps = store) :
    store.commit.1.touched = (start.touchedAll steps).dedup.length
  count : store.commit.2.countEdges .permanent + store.commit.1.removed =
    store.countEdges .permanent + store.commit.1.promoted
  bound : store.commit.1.promoted + store.commit.1.removed ≤
    store.commit.1.touched
  /-- Another commit, or a rollback, does nothing. -/
  commitAgain : store.commit.2.commit = ({}, store.commit.2)
  rollbackAgain : store.commit.2.rollback = (0, store.commit.2)

namespace Represents

/-- The edges that came with the batch are counted, and so are those that went
with it. -/
theorem countP_changes (represents : store.Represents graph)
    (sound : graph.Sound) {version another : Version}
    (same : (EdgeHistory.committed.visible version &&
      !EdgeHistory.committed.visible another) = false) :
    store.batch.countP (store.changes version another) =
      (store.idsIn version \ store.idsIn another).card := by
  let test (history : EdgeHistory) : Bool :=
    history.visible version && !history.visible another
  rw [card_idsIn_sdiff]
  exact (represents.countP_batch sound test same).trans
    (represents.countP_edges test).symm

/-- The promoted and the removed edges are different ones, and the batch
touched them all. -/
theorem bound (represents : store.Represents graph) :
    store.commit.1.promoted + store.commit.1.removed ≤
      store.commit.1.touched := by
  rw [store.commit_eq represents.nodup]
  have apart : store.batch.countP (store.changes .permanent .merged) ≤
      store.batch.countP fun id =>
        ¬ store.changes .merged .permanent id = true := by
    refine List.countP_mono_left fun id _ goes => decide_eq_true ?_
    rw [changes] at goes ⊢
    cases found : store.edges[id]? with
    | none => exact Bool.false_ne_true
    | some stored =>
        rw [found] at goes
        simp only [Option.any_some, Bool.and_eq_true] at goes ⊢
        simp [goes.1]
  have all := List.length_eq_countP_add_countP
    (store.changes .merged .permanent) (l := store.batch)
  simp only at all ⊢
  omega

end Represents

/-- The edges that the batch touched are counted, each once. -/
theorem Settled.touched_commit {start : Store} (settled : start.Settled)
    (steps : List BatchStep) :
    (start.stageAll steps).commit.1.touched =
      (start.touchedAll steps).dedup.length := by
  obtain ⟨graph, fresh, represents⟩ := settled.exists_graph
  have sound := fresh.reachable.sound
  obtain ⟨touched, later⟩ := represents.stageAll sound steps
  rw [commit_eq _ later.nodup, later.length_batch, touched]
  exact Graph.size_batch_stageAll sound fresh.batch_eq_empty steps

/-- A commit makes what was seen after the batch permanent, and counts it. -/
theorem makes_permanent (reachable : store.Reachable) :
    store.MakesPermanent := by
  obtain ⟨graph, reached, represents⟩ := reachable.exists_graph
  have sound := reached.sound
  have later := (represents.commit sound).2
  have contents := represents.contents_commit sound
  have reads {version another : Version} {other : Store} {otherGraph : Graph}
      (otherRepresents : other.Represents otherGraph)
      (otherSound : otherGraph.Sound)
      (same : store.commit.2.contents version = other.contents another) :=
    later.readsLike sound.commit otherRepresents otherSound same
  have quiet := represents.quiet_commit
  have promoted : store.commit.1.promoted =
      (store.idsIn .merged \ store.idsIn .permanent).card := by
    rw [store.commit_eq represents.nodup]
    exact represents.countP_changes sound rfl
  have removed : store.commit.1.removed =
      (store.idsIn .permanent \ store.idsIn .merged).card := by
    rw [store.commit_eq represents.nodup]
    exact represents.countP_changes sound rfl
  constructor
  case permanent => exact reads represents sound (contents .permanent)
  case merged =>
    exact reads later sound.commit
      ((contents .merged).trans (contents .permanent).symm)
  case additions => exact reads .empty .empty (contents .additions)
  case removals => exact reads .empty .empty (contents .removals)
  case dropped =>
    intro id stored found gone
    refine later.unread ?_
    rw [represents.edges_commit sound, Std.ExtTreeMap.getElem?_filterMap',
      found]
    simp [gone]
  case vertices =>
    rw [store.commit_eq represents.nodup, settled_eq]
    rfl
  case settled =>
    rw [isPending, quiet.batch]
    rfl
  case promoted => exact promoted
  case removed => exact removed
  case staged => exact reachable.exists_steps
  case touched =>
    intro start steps settled staged
    rw [← staged]
    exact settled.touched_commit steps
  case count =>
    have merged := Finset.card_sdiff_add_card_inter
      (store.idsIn .merged) (store.idsIn .permanent)
    have permanent := Finset.card_sdiff_add_card_inter
      (store.idsIn .permanent) (store.idsIn .merged)
    rw [Finset.inter_comm] at permanent
    rw [(reads represents sound (contents .permanent)).countEdges, promoted,
      removed, countEdges_eq_card, countEdges_eq_card]
    omega
  case bound => exact represents.bound
  case commitAgain => exact quiet.commit
  case rollbackAgain => exact quiet.rollback

/-- A batch that replaces an edge by one of another type, toggles a loop, and
adds another loop in vain. -/
theorem makes_permanent_of_loops :
    let start := (empty.stageAll
      [.addEdge ⟨⟨1⟩, ⟨2⟩, .default⟩ [],
        .addEdge ⟨⟨1⟩, ⟨1⟩, .default⟩ []]).commit.2
    let store := start.stageAll
      [.removeEdge ⟨⟨1⟩, ⟨2⟩, .default⟩, .addEdge ⟨⟨1⟩, ⟨2⟩, ⟨1⟩⟩ [],
        .removeEdge ⟨⟨1⟩, ⟨1⟩, .default⟩, .addEdge ⟨⟨1⟩, ⟨1⟩, .default⟩ [],
        .addEdge ⟨⟨2⟩, ⟨2⟩, .default⟩ [], .removeEdge ⟨⟨2⟩, ⟨2⟩, .default⟩]
    store.commit.1 = { promoted := 1, removed := 1, touched := 4 } ∧
      store.commit.2.edgesJoining ⟨1⟩ ⟨2⟩ none .permanent = [⟨2⟩] ∧
      store.Reachable ∧ store.MakesPermanent := by
  intro start store
  have reachable : store.Reachable :=
    (Reachable.empty.stageAll _).commit.stageAll _
  exact ⟨by decide +kernel, by decide +kernel, reachable,
    makes_permanent reachable⟩

end Store

end DeltaGraph
