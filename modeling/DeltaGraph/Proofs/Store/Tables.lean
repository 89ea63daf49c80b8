import DeltaGraph.Proofs.Store.Adjacency
import DeltaGraph.Store.Batch
import Mathlib.Logic.Function.Basic
import Mathlib.Tactic.Common

/-!
# The tables of a store

The tables of a store hold one table of edges by their links: the numbers are
those of the edges, and every edge is listed at both of its ends.  There are
three ways in which a store changes its tables, and each of them changes the
one table at one link.
-/

namespace DeltaGraph

/-- The link that is followed in a direction from one vertex to another. -/
def Direction.link (direction : Direction) (near far : VertexId)
    (type : TypeId) : Link :=
  match direction with
  | forward => ⟨near, far, type⟩
  | backward => ⟨far, near, type⟩

/-- A link is put together again from its two ends as a direction sees them. -/
@[simp] theorem Direction.link_near_far (direction : Direction) (link : Link) :
    direction.link (link.near direction) (link.far direction) link.type =
      link := by
  cases direction <;> rfl

@[simp] theorem Direction.near_link (direction : Direction)
    (near far : VertexId) (type : TypeId) :
    (direction.link near far type).near direction = near := by
  cases direction <;> rfl

@[simp] theorem Direction.far_link (direction : Direction)
    (near far : VertexId) (type : TypeId) :
    (direction.link near far type).far direction = far := by
  cases direction <;> rfl

@[simp] theorem Direction.type_link (direction : Direction)
    (near far : VertexId) (type : TypeId) :
    (direction.link near far type).type = type := by
  cases direction <;> rfl

/-- A link and what it is followed between, in a direction. -/
theorem Direction.eq_link_iff {direction : Direction} {link : Link}
    {near far : VertexId} {type : TypeId} :
    link = direction.link near far type ↔
      link.near direction = near ∧ link.far direction = far ∧
        link.type = type := by
  constructor
  · rintro rfl
    simp
  · rintro ⟨rfl, rfl, rfl⟩
    simp

/-- An entry is the one for a link in a direction. -/
theorem Direction.eq_link_entry_iff {direction : Direction} {link : Link}
    {vertex : VertexId} {entry : Adjacent} :
    link = direction.link vertex entry.neighbor entry.type ↔
      link.near direction = vertex ∧
        entry.isFor (link.far direction) link.type = true := by
  rw [Direction.eq_link_iff, Adjacent.isFor_iff, eq_comm (a := entry.neighbor),
    eq_comm (a := entry.type)]

/-- What is stored of an edge with a link. -/
def Edge.stored (edge : Edge) (link : Link) : StoredEdge :=
  ⟨link, edge.history, edge.properties⟩

/-- A record of the store is that of a link exactly when it names the link and
holds the edge. -/
theorem Edge.stored_eq_iff {edge : Edge} {link : Link} {stored : StoredEdge} :
    edge.stored link = stored ↔
      stored.link = link ∧ stored.edge edge.id = edge := by
  constructor
  · rintro rfl
    exact ⟨rfl, rfl⟩
  · rintro ⟨rfl, same⟩
    rw [← same]
    rfl

namespace Store

variable {store : Store} {table : Link → Option Edge}

/-- The tables of the store hold a table of edges by their links. -/
structure Holds (store : Store) (table : Link → Option Edge) : Prop where
  /-- The numbers are those of the edges. -/
  ids (link : Link) : store.ids[link]? = (table link).map Edge.id
  edges (id : EdgeId) (stored : StoredEdge) :
    store.edges[id]? = some stored ↔
      table stored.link = some (stored.edge id)
  ascending (direction : Direction) : (store.adjacency direction).Ascending
  /-- Each edge is listed at both of its ends. -/
  entries (direction : Direction) (vertex : VertexId) (entry : Adjacent) :
    entry ∈ (store.adjacency direction).entriesAt vertex ↔
      (table (direction.link vertex entry.neighbor entry.type)).map Edge.id =
        some entry.edge

/-! ## Touching and changing an edge -/

@[simp] theorem touch_vertices (store : Store) (id : EdgeId) :
    (store.touch id).vertices = store.vertices := by
  unfold touch
  split <;> rfl

@[simp] theorem touch_undo (store : Store) (id : EdgeId) :
    (store.touch id).undo = store.undo := by
  unfold touch
  split <;> rfl

@[simp] theorem touch_freshEdge (store : Store) (id : EdgeId) :
    (store.touch id).freshEdge = store.freshEdge := by
  unfold touch
  split <;> rfl

@[simp] theorem touch_ids (store : Store) (id : EdgeId) :
    (store.touch id).ids = store.ids := by
  unfold touch
  split <;> rfl

/-- Marking an edge as touched leaves the records of edges alone. -/
@[simp] theorem touch_edges (store : Store) (id : EdgeId) :
    (store.touch id).edges = store.edges := by
  unfold touch
  split <;> rfl

/-- Marking an edge as touched leaves both adjacencies alone. -/
@[simp] theorem touch_adjacency (store : Store) (id : EdgeId) :
    (store.touch id).adjacency = store.adjacency := by
  unfold touch
  split <;> rfl

@[simp] theorem rewrite_vertices (store : Store) (id : EdgeId)
    (change : StoredEdge → StoredEdge) :
    (store.rewrite id change).vertices = store.vertices := by
  unfold rewrite
  split <;> rfl

@[simp] theorem rewrite_undo (store : Store) (id : EdgeId)
    (change : StoredEdge → StoredEdge) :
    (store.rewrite id change).undo = store.undo := by
  unfold rewrite
  split <;> rfl

@[simp] theorem rewrite_freshEdge (store : Store) (id : EdgeId)
    (change : StoredEdge → StoredEdge) :
    (store.rewrite id change).freshEdge = store.freshEdge := by
  unfold rewrite
  split <;> rfl

/-- Rewriting the record of an edge leaves the list of touched edges alone. -/
@[simp] theorem rewrite_batch (store : Store) (id : EdgeId)
    (change : StoredEdge → StoredEdge) :
    (store.rewrite id change).batch = store.batch := by
  unfold rewrite
  split <;> rfl

@[simp] theorem rewrite_seen (store : Store) (id : EdgeId)
    (change : StoredEdge → StoredEdge) :
    (store.rewrite id change).seen = store.seen := by
  unfold rewrite
  split <;> rfl

/-- A new edge is touched like any other. -/
@[simp] theorem touch_track_batch (store : Store) (link : Link) (id : EdgeId) :
    ((store.track link).2.touch id).batch = (store.touch id).batch := by
  have seen : (store.track link).2.seen = store.seen := rfl
  unfold touch
  rw [seen]
  split <;> rfl

/-- Entering a link into both adjacencies does not change which edges count as
touched. -/
@[simp] theorem touch_track_seen (store : Store) (link : Link) (id : EdgeId) :
    ((store.track link).2.touch id).seen = (store.touch id).seen := by
  have seen : (store.track link).2.seen = store.seen := rfl
  unfold touch
  rw [seen]
  split <;> rfl

namespace Holds

/-- The empty store holds the empty table. -/
theorem empty : Store.empty.Holds fun _ => none where
  ids link := by simp [Store.empty]
  edges id stored := by simp [Store.empty]
  ascending direction vertex := by
    cases direction <;>
      simp [Store.empty, adjacency, AdjacencyList.Ascending]
  entries direction vertex entry := by
    cases direction <;>
      simp [Store.empty, adjacency, AdjacencyMap.entriesAt]

/-- The edge of the table at a link is stored under its number. -/
theorem getElem?_of_table (holds : store.Holds table) {link : Link}
    {edge : Edge} (found : table link = some edge) :
    store.edges[edge.id]? = some (edge.stored link) :=
  (holds.edges edge.id (edge.stored link)).mpr found

/-- Edges with the same number have the same link. -/
theorem link_unique (holds : store.Holds table) {link other : Link}
    {edge another : Edge} (found : table link = some edge)
    (otherFound : table other = some another)
    (same : edge.id = another.id) : link = other := by
  have first := holds.getElem?_of_table found
  have second := holds.getElem?_of_table otherFound
  rw [same, second, Option.some.injEq] at first
  exact (congrArg StoredEdge.link first).symm

/-- The number of an edge is found at the link of the edge only. -/
theorem id_eq_iff (holds : store.Holds table) {link other : Link}
    {old edge : Edge} (present : table link = some old)
    (found : table other = some edge) : edge.id = old.id ↔ other = link := by
  constructor
  · exact fun same => holds.link_unique found present same
  · rintro rfl
    rw [present] at found
    cases found
    rfl

/-- A number in the table leads to its edge. -/
theorem getElem?_iff (holds : store.Holds table) {id : EdgeId}
    {link : Link} {edge : Edge} :
    (store.edges[id]?).map (fun stored => (stored.link, stored.edge id)) =
        some (link, edge) ↔
      table link = some edge ∧ edge.id = id := by
  rw [Option.map_eq_some_iff]
  constructor
  · rintro ⟨stored, found, same⟩
    cases same
    exact ⟨(holds.edges id stored).mp found, rfl⟩
  · rintro ⟨found, rfl⟩
    exact ⟨_, holds.getElem?_of_table found, rfl⟩

/-- The numbers that are in use are those of the edges of the table. -/
theorem exists_stored_iff (holds : store.Holds table) {id : EdgeId} :
    (∃ stored, store.edges[id]? = some stored) ↔
      ∃ link edge, table link = some edge ∧ edge.id = id := by
  constructor
  · rintro ⟨stored, found⟩
    exact ⟨_, _, (holds.edges id stored).mp found, rfl⟩
  · rintro ⟨link, edge, found, rfl⟩
    exact ⟨_, holds.getElem?_of_table found⟩

/-! ## Changes of the tables -/

/-- Stores with the same tables of edges hold the same table. -/
theorem congr {later : Store} (holds : store.Holds table)
    (ids : later.ids = store.ids) (edges : later.edges = store.edges)
    (adjacency : later.adjacency = store.adjacency) : later.Holds table where
  ids link := ids ▸ holds.ids link
  edges id stored := edges ▸ holds.edges id stored
  ascending direction := adjacency ▸ holds.ascending direction
  entries direction vertex entry :=
    adjacency ▸ holds.entries direction vertex entry

/-- A store whose tables have changed at the link of one edge holds the table
that has changed at that link. -/
theorem update {later : Store} (holds : store.Holds table) {link : Link}
    (id : EdgeId) {new : Option Edge}
    (own : ∀ other edge, table other = some edge →
      (edge.id = id ↔ other = link))
    (numbered : ∀ edge, new = some edge → edge.id = id)
    (ids : ∀ other, later.ids[other]? =
      if link = other then new.map Edge.id else store.ids[other]?)
    (edges : ∀ other, later.edges[other]? =
      if id = other then new.map (·.stored link) else store.edges[other]?)
    (ascending : ∀ direction, (later.adjacency direction).Ascending)
    (entries : ∀ direction vertex entry,
      entry ∈ (later.adjacency direction).entriesAt vertex ↔
        if link = direction.link vertex entry.neighbor entry.type then
          new.map Edge.id = some entry.edge
        else entry ∈ (store.adjacency direction).entriesAt vertex) :
    later.Holds (Function.update table link new) where
  ids other := by
    rw [ids, Function.update_apply]
    by_cases same : other = link
    · rw [if_pos same, if_pos same.symm]
    · rw [if_neg same, if_neg (Ne.symm same), holds.ids]
  edges other stored := by
    rw [edges, Function.update_apply]
    by_cases here : id = other
    · subst here
      rw [if_pos rfl, Option.map_eq_some_iff]
      by_cases same : stored.link = link
      · rw [if_pos same]
        constructor
        · rintro ⟨edge, rfl, shape⟩
          obtain ⟨-, shape⟩ := Edge.stored_eq_iff.mp shape
          rw [← numbered edge rfl, shape]
        · intro shape
          exact ⟨_, shape, Edge.stored_eq_iff.mpr ⟨same, rfl⟩⟩
      · rw [if_neg same]
        refine iff_of_false ?_ fun found =>
          same ((own _ _ found).mp rfl)
        rintro ⟨edge, -, shape⟩
        exact same (Edge.stored_eq_iff.mp shape).1
    · rw [if_neg here, holds.edges]
      by_cases same : stored.link = link
      · rw [if_pos same, same]
        refine iff_of_false (fun found => here ?_) fun found => here ?_
        · exact ((own _ _ found).mpr rfl).symm
        · exact (numbered _ found).symm
      · rw [if_neg same]
  ascending := ascending
  entries direction vertex entry := by
    rw [entries, Function.update_apply]
    by_cases same :
        link = direction.link vertex entry.neighbor entry.type
    · rw [if_pos same, if_pos same.symm]
    · rw [if_neg same, if_neg (Ne.symm same), holds.entries]

/-- A new edge is put into the table. -/
theorem track (holds : store.Holds table) {link : Link}
    (new : table link = none)
    (fresh : ∀ other edge, table other = some edge →
      edge.id.number < store.freshEdge) :
    (store.track link).2.Holds (Function.update table link
      (some ⟨⟨store.freshEdge⟩, .added, ∅⟩)) := by
  have adjacency (direction : Direction) :
      (store.track link).2.adjacency direction =
        (store.adjacency direction).add (link.near direction)
          ⟨link.far direction, link.type, ⟨store.freshEdge⟩⟩ := by
    cases direction <;> rfl
  refine holds.update ⟨store.freshEdge⟩ ?own ?numbered ?ids ?edges
    ?ascending ?entries
  case own =>
    intro other edge found
    have below := fresh other edge found
    refine iff_of_false (fun same => ?_) fun same => ?_
    · rw [same] at below
      exact Nat.lt_irrefl _ below
    · rw [same, new] at found
      cases found
  case numbered =>
    rintro edge ⟨⟩
    rfl
  case ids =>
    intro other
    simp only [Store.track, Std.ExtTreeMap.getElem?_insert,
      Std.LawfulEqOrd.compare_eq_iff_eq]
    rfl
  case edges =>
    intro other
    simp only [Store.track, Std.ExtTreeMap.getElem?_insert,
      Std.LawfulEqOrd.compare_eq_iff_eq]
    rfl
  case ascending =>
    intro direction
    exact adjacency direction ▸ (holds.ascending direction).add _ _
  case entries =>
    intro direction vertex entry
    rw [adjacency, (holds.ascending direction).mem_add]
    by_cases here : link = direction.link vertex entry.neighbor entry.type
    · have place := Direction.eq_link_entry_iff.mp here
      obtain ⟨neighbor, type⟩ := Adjacent.isFor_iff.mp place.2
      rw [if_pos place, if_pos here, Option.map_some, Option.some.injEq]
      obtain ⟨_, _, edge⟩ := entry
      simp only at neighbor type ⊢
      rw [neighbor, type, Adjacent.mk.injEq, eq_comm (a := edge)]
      simp
    · rw [if_neg fun place => here (Direction.eq_link_entry_iff.mpr place),
        if_neg here]

/-- The lists have the edges of the table, also at a link whose edge has
changed under its number. -/
theorem entries_of_same (holds : store.Holds table) {link : Link} {id : EdgeId}
    {edge : Edge} (found : table link = some edge) (same : edge.id = id)
    (direction : Direction) (vertex : VertexId) (entry : Adjacent) :
    entry ∈ (store.adjacency direction).entriesAt vertex ↔
      if link = direction.link vertex entry.neighbor entry.type then
        some id = some entry.edge
      else entry ∈ (store.adjacency direction).entriesAt vertex := by
  split
  · rename_i here
    rw [holds.entries, ← here, found, ← same]
    rfl
  · rfl

/-- An edge of the table is changed. -/
theorem rewrite (holds : store.Holds table) {id : EdgeId}
    {stored : StoredEdge} (found : store.edges[id]? = some stored)
    {change : StoredEdge → StoredEdge}
    (kept : (change stored).link = stored.link) :
    (store.rewrite id change).Holds (Function.update table stored.link
      (some ((change stored).edge id))) := by
  have present := (holds.edges id stored).mp found
  have changed : store.rewrite id change =
      { store with edges := store.edges.insert id (change stored) } := by
    rw [Store.rewrite, found]
  rw [changed]
  refine holds.update id ?own ?numbered ?ids ?edges holds.ascending ?entries
  case own => exact fun other edge => holds.id_eq_iff present
  case numbered =>
    rintro edge ⟨⟩
    rfl
  case ids =>
    intro other
    rw [holds.ids]
    split
    · rename_i same
      rw [← same, present]
      rfl
    · rfl
  case edges =>
    intro other
    simp only [Std.ExtTreeMap.getElem?_insert,
      Std.LawfulEqOrd.compare_eq_iff_eq]
    rw [Option.map_some, Edge.stored_eq_iff.mpr ⟨kept, rfl⟩]
  case entries => exact holds.entries_of_same present rfl

/-- An edge of the table is touched and changed. -/
theorem touch_rewrite (holds : store.Holds table) {link : Link} {old : Edge}
    (found : table link = some old) (change : StoredEdge → StoredEdge)
    (kept : (change (old.stored link)).link = link) :
    ((store.touch old.id).rewrite old.id change).Holds
      (Function.update table link
        (some ((change (old.stored link)).edge old.id))) := by
  have touched : (store.touch old.id).Holds table :=
    holds.congr (touch_ids ..) (touch_edges ..) (touch_adjacency ..)
  exact touched.rewrite (touched.getElem?_of_table found) kept

/-- An edge is taken out of the table. -/
theorem dropEdge (holds : store.Holds table) {id : EdgeId}
    {stored : StoredEdge} (found : store.edges[id]? = some stored) :
    (store.dropEdge id).Holds (Function.update table stored.link none) := by
  obtain ⟨link, history, properties⟩ := stored
  have present := (holds.edges id ⟨link, history, properties⟩).mp found
  have dropped : store.dropEdge id =
      { store with
        edges := store.edges.erase id
        ids := store.ids.erase link
        outgoing := store.outgoing.drop link.source link.target link.type
        incoming :=
          store.incoming.drop link.target link.source link.type } := by
    rw [Store.dropEdge, found]
  have adjacency (direction : Direction) :
      (store.dropEdge id).adjacency direction =
        (store.adjacency direction).drop (link.near direction)
          (link.far direction) link.type := by
    rw [dropped]
    cases direction <;> rfl
  refine holds.update id ?own ?numbered ?ids ?edges ?ascending ?entries
  case own => exact fun other edge => holds.id_eq_iff present
  case numbered => rintro edge ⟨⟩
  case ids =>
    intro other
    rw [dropped]
    simp only [Std.ExtTreeMap.getElem?_erase,
      Std.LawfulEqOrd.compare_eq_iff_eq]
    rfl
  case edges =>
    intro other
    rw [dropped]
    simp only [Std.ExtTreeMap.getElem?_erase,
      Std.LawfulEqOrd.compare_eq_iff_eq]
    rfl
  case ascending =>
    intro direction
    exact adjacency direction ▸ (holds.ascending direction).drop _ _ _
  case entries =>
    intro direction vertex entry
    rw [adjacency, (holds.ascending direction).mem_drop,
      ← Direction.eq_link_entry_iff]
    dsimp only
    split
    · rename_i here
      simp [← here]
    · rename_i elsewhere
      exact and_iff_left elsewhere

end Holds

end Store

end DeltaGraph
