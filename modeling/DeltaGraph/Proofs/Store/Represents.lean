import DeltaGraph.Proofs.Effects
import DeltaGraph.Proofs.Graph.Sound
import DeltaGraph.Proofs.Store.Tables

/-!
# What a store represents

A store represents a graph if its tables hold the edges of the graph and what
it notes of the batch is what the graph notes.  Every step does the same to a
store and to the graph that it represents, with the same result.  A step that
fails may leave a note in the store, but the graph stays the same.
-/

namespace DeltaGraph

/-- Putting what a map holds into it changes nothing. -/
theorem insert_of_getElem? {κ α : Type} [Ord κ] [Std.TransOrd κ]
    [Std.LawfulEqOrd κ] {map : Std.ExtTreeMap κ α} {key : κ} {value : α}
    (found : map[key]? = some value) : map.insert key value = map := by
  refine Std.ExtTreeMap.ext_getElem? fun other => ?_
  rw [Std.ExtTreeMap.getElem?_insert]
  split
  · rename_i same
    rw [← Std.LawfulEqOrd.compare_eq_iff_eq.mp same, found]
  · rfl

/-- Putting a member of a set into it changes nothing. -/
theorem insert_of_mem {κ : Type} [Ord κ] [Std.TransOrd κ]
    [Std.LawfulEqOrd κ] {set : Std.ExtTreeSet κ} {key : κ}
    (member : key ∈ set) : set.insert key = set := by
  refine Std.ExtTreeSet.ext_mem fun other => ?_
  rw [Std.ExtTreeSet.mem_insert, Std.LawfulEqOrd.compare_eq_iff_eq]
  exact or_iff_right_of_imp fun same => same ▸ member

/-- Making a vertex known is putting it without a type and without values. -/
theorem Graph.putVertex_none (graph : Graph) (vertex : VertexId) :
    graph.putVertex vertex none [] = .ok (graph.ensureVertex vertex) := by
  unfold putVertex ensureVertex isCommittedVertex
  cases found : graph.vertices[vertex]? with
  | none =>
      have unknown : graph.vertices.contains vertex = false := by
        rw [Std.ExtTreeMap.contains_eq_isSome_getElem?, found]
        rfl
      simp [unknown]
  | some content =>
      have known : graph.vertices.contains vertex = true := by
        rw [Std.ExtTreeMap.contains_eq_isSome_getElem?, found]
        rfl
      rw [known, Bool.true_and, if_pos rfl]
      split
      · rfl
      · rename_i created
        have member : vertex ∈ graph.created := by simpa using created
        have same : graph.writeVertex vertex none [] = { graph with
            vertices := graph.vertices.insert vertex content
            created := graph.created.insert vertex } := by
          rw [writeVertex, found]
          rfl
        rw [same, insert_of_getElem? found, insert_of_mem member]

namespace Store

variable {store later : Store} {graph next : Graph}

/-- The store represents the graph. -/
structure Represents (store : Store) (graph : Graph) : Prop where
  vertices : store.vertices = graph.vertices
  holds : store.Holds (graph.edges[·]?)
  freshEdge : store.freshEdge = graph.freshEdge
  /-- The batch lists each edge once. -/
  nodup : store.batch.Nodup
  tracked {id : EdgeId} (touched : id ∈ store.batch) :
    ∃ stored, store.edges[id]? = some stored
  batch (link : Link) :
    link ∈ graph.batch ↔
      ∃ edge, graph.edges[link]? = some edge ∧ edge.id ∈ store.batch
  seen (id : EdgeId) : id ∈ store.seen ↔ id ∈ store.batch
  created (vertex : VertexId) :
    vertex ∈ graph.created ↔ store.undo[vertex]? = some none
  /-- A vertex that was known before the batch is what it was. -/
  undo {vertex : VertexId} {content : Vertex}
    (noted : store.undo[vertex]? = some (some content)) :
    graph.vertices[vertex]? = some content

namespace Represents

theorem empty : Store.empty.Represents .empty where
  vertices := rfl
  holds := by simpa [Graph.empty] using Holds.empty
  freshEdge := rfl
  nodup := .nil
  tracked touched := by cases touched
  batch link := by simp [Graph.empty]
  seen id := by simp [Store.empty]
  created vertex := by simp [Store.empty, Graph.empty]
  undo noted := by simp [Store.empty] at noted

end Represents

/-! ## Vertices -/

/-- The store in which a vertex is noted, and known. -/
def note (store : Store) (vertex : VertexId) : Store :=
  (store.remember vertex).setVertex vertex (store.vertices.getD vertex {})

theorem note_eq (store : Store) (vertex : VertexId) :
    store.note vertex =
      { store with
        vertices := store.vertices.insert vertex
          (store.vertices.getD vertex {})
        undo := (store.note vertex).undo } := by
  unfold note remember
  split <;> rfl

theorem run_putVertex (store : Store) (vertex : VertexId)
    (type : Option TypeId) (values : List (PropertyId × Value)) :
    putVertex vertex type values store =
      let stored := store.vertices.getD vertex {}
      let noted := store.note vertex
      if noted.isCommitted vertex then
        match Graph.vertexConflict? vertex stored type values with
        | some conflict => (.error (.invalid conflict), noted)
        | none => (.ok (), noted)
      else
        (.ok (), noted.setVertex vertex
          ⟨type.getD stored.type, stored.properties.setAll values⟩) := by
  have known : (store.remember vertex).vertices = store.vertices := by
    unfold remember
    split <;> rfl
  have start : putVertex vertex type values store =
      let stored := (store.remember vertex).vertices.getD vertex {}
      let noted := (store.remember vertex).setVertex vertex stored
      (if noted.isCommitted vertex then
        match Graph.vertexConflict? vertex stored type values with
        | some conflict => throw (.invalid conflict)
        | none => pure ()
      else
        modify (·.setVertex vertex
          ⟨type.getD stored.type, stored.properties.setAll values⟩) :
        ExceptT Error (StateM Store) Unit) noted := rfl
  rw [start, known]
  dsimp only [note]
  split
  · cases Graph.vertexConflict? vertex (store.vertices.getD vertex {}) type
      values <;> rfl
  · rfl

/-- What is noted of a vertex stays, and else what is known of it is noted. -/
theorem undo_note (store : Store) (vertex other : VertexId) :
    (store.note vertex).undo[other]? =
      if vertex = other then
        some ((store.undo[vertex]?).getD store.vertices[vertex]?)
      else store.undo[other]? := by
  unfold note remember setVertex
  rw [Std.ExtTreeMap.contains_eq_isSome_getElem?]
  cases noted : store.undo[vertex]? with
  | none =>
      simp only [Option.isSome_none, Bool.false_eq_true, if_false,
        Std.ExtTreeMap.getElem?_insert, Std.LawfulEqOrd.compare_eq_iff_eq]
      rfl
  | some prior =>
      rw [Option.isSome_some, if_pos rfl]
      split
      · rename_i same
        rw [← same, noted]
        rfl
      · rfl

theorem isCommitted_note (store : Store) (vertex : VertexId) :
    (store.note vertex).isCommitted vertex =
      ((store.undo[vertex]?).getD store.vertices[vertex]?).isSome := by
  rw [isCommitted, undo_note, if_pos rfl]
  cases (store.undo[vertex]?).getD store.vertices[vertex]? <;> rfl

namespace Represents

theorem contains_created (represents : store.Represents graph)
    (vertex : VertexId) :
    graph.created.contains vertex =
      (store.undo[vertex]?).any Option.isNone := by
  rw [Bool.eq_iff_iff, Std.ExtTreeSet.contains_iff_mem, represents.created]
  cases store.undo[vertex]? <;> simp

/-- What is noted tells whether a vertex was known before the batch. -/
theorem isCommitted_note (represents : store.Represents graph)
    (vertex : VertexId) :
    (store.note vertex).isCommitted vertex =
      graph.isCommittedVertex vertex := by
  rw [Store.isCommitted_note, Graph.isCommittedVertex,
    Std.ExtTreeMap.contains_eq_isSome_getElem?, represents.contains_created,
    represents.vertices]
  cases noted : store.undo[vertex]? with
  | none => simp
  | some prior =>
      cases prior with
      | none => simp
      | some content => simp [represents.undo noted]

/-- Noting a vertex that was known before the batch changes nothing. -/
theorem note (represents : store.Represents graph) {vertex : VertexId}
    (committed : graph.isCommittedVertex vertex = true) :
    (store.note vertex).Represents graph := by
  have prior := represents.isCommitted_note vertex
  rw [committed, Store.isCommitted_note] at prior
  have known : vertex ∈ graph.vertices ∧ vertex ∉ graph.created := by
    rw [Graph.isCommittedVertex, Bool.and_eq_true, Bool.not_eq_true',
      Std.ExtTreeMap.contains_iff_mem] at committed
    refine ⟨committed.1, fun new => ?_⟩
    rw [Std.ExtTreeSet.contains_iff_mem.mpr new] at committed
    cases committed.2
  obtain ⟨content, found⟩ := Option.isSome_iff_exists.mp
    (Std.ExtTreeMap.isSome_getElem?_iff_mem.mpr known.1)
  have same : (store.note vertex) =
      { store with undo := (store.note vertex).undo } := by
    have stored : store.vertices[vertex]? = some content := by
      rw [represents.vertices, found]
    have value : store.vertices.getD vertex {} = content := by
      rw [Std.ExtTreeMap.getD_eq_getD_getElem?, stored]
      rfl
    rw [note_eq, value, insert_of_getElem? stored]
  rw [same]
  refine { represents with holds := ?holds, created := ?created, undo := ?undo }
  case holds => exact represents.holds.congr rfl rfl rfl
  case created =>
    intro other
    rw [undo_note]
    split
    · rename_i here
      subst here
      refine iff_of_false known.2 fun missing => ?_
      rw [Option.some.inj missing] at prior
      cases prior
    · exact represents.created other
  case undo =>
    intro other noted present
    rw [undo_note] at present
    split at present
    · rename_i here
      subst here
      cases before : store.undo[vertex]? with
      | none =>
          rw [before, Option.getD_none, Option.some.injEq,
            represents.vertices] at present
          exact present
      | some earlier =>
          rw [before, Option.getD_some, Option.some.injEq] at present
          exact represents.undo (present ▸ before)
    · exact represents.undo present

/-- A vertex that was not known before the batch is written. -/
theorem writeVertex (represents : store.Represents graph) {vertex : VertexId}
    (new : graph.isCommittedVertex vertex = false) (content : Vertex) :
    ((store.note vertex).setVertex vertex content).Represents
      { graph with
        vertices := graph.vertices.insert vertex content
        created := graph.created.insert vertex } := by
  have prior := represents.isCommitted_note vertex
  rw [new, Store.isCommitted_note, Option.isSome_eq_false_iff,
    Option.isNone_iff_eq_none] at prior
  rw [note_eq]
  constructor
  case vertices =>
    refine Std.ExtTreeMap.ext_getElem? fun other => ?_
    simp only [setVertex, Std.ExtTreeMap.getElem?_insert,
      Std.LawfulEqOrd.compare_eq_iff_eq, represents.vertices]
    split <;> simp [*]
  case holds => exact represents.holds.congr rfl rfl rfl
  case freshEdge => exact represents.freshEdge
  case nodup => exact represents.nodup
  case tracked => exact represents.tracked
  case batch => exact represents.batch
  case seen => exact represents.seen
  case created =>
    intro other
    simp only [setVertex, undo_note, Std.ExtTreeSet.mem_insert,
      Std.LawfulEqOrd.compare_eq_iff_eq]
    split
    · rename_i here
      exact iff_of_true (.inl here) (congrArg some prior)
    · rename_i elsewhere
      rw [or_iff_right elsewhere]
      exact represents.created other
  case undo =>
    intro other noted present
    simp only [setVertex, undo_note] at present
    rw [Std.ExtTreeMap.getElem?_insert]
    simp only [Std.LawfulEqOrd.compare_eq_iff_eq]
    split at present
    · rw [prior] at present
      cases present
    · rename_i elsewhere
      rw [if_neg elsewhere]
      exact represents.undo present

end Represents

/-- A step on a store has the result of an operation on a graph, and leads to
the graph that the operation gives; if the operation fails, it leads to the
graph it started from. -/
def Follows {α : Type} (run : Except Error α × Store) (graph : Graph) :
    Except Error (α × Graph) → Prop
  | .ok (value, next) => run.1 = .ok value ∧ run.2.Represents next
  | .error error => run.1 = .error error ∧ run.2.Represents graph

namespace Represents

/-- A vertex is put into a store as it is put into the graph. -/
theorem putVertex (represents : store.Represents graph) (vertex : VertexId)
    (type : Option TypeId) (values : List (PropertyId × Value)) :
    Follows (Store.putVertex vertex type values store) graph
      ((graph.putVertex vertex type values).map ((), ·)) := by
  have stored : store.vertices.getD vertex {} =
      (graph.vertices[vertex]?).getD {} := by
    rw [represents.vertices, Std.ExtTreeMap.getD_eq_getD_getElem?]
  rw [run_putVertex, stored]
  dsimp only
  rw [represents.isCommitted_note, Graph.putVertex]
  cases committed : graph.isCommittedVertex vertex with
  | true =>
      have noted := represents.note committed
      obtain ⟨content, found⟩ : ∃ content,
          graph.vertices[vertex]? = some content := by
        rw [Graph.isCommittedVertex, Bool.and_eq_true,
          Std.ExtTreeMap.contains_eq_isSome_getElem?] at committed
        exact Option.isSome_iff_exists.mp committed.1
      rw [if_pos rfl, if_pos rfl, found, Option.getD_some, Option.bind_some]
      cases Graph.vertexConflict? vertex content type values with
      | some conflict => exact ⟨rfl, noted⟩
      | none => exact ⟨rfl, noted⟩
  | false => exact ⟨rfl, represents.writeVertex committed _⟩

/-- A vertex is made known to a store as it is made known to the graph. -/
theorem ensureVertex (represents : store.Represents graph)
    (vertex : VertexId) :
    ∃ later, Store.putVertex vertex none [] store = (.ok (), later) ∧
      later.Represents (graph.ensureVertex vertex) := by
  have follows := represents.putVertex vertex none []
  rw [Graph.putVertex_none] at follows
  exact ⟨_, Prod.ext follows.1 rfl, follows.2⟩

/-! ## Edges -/

/-- The edges that the batch has touched, once another one is. -/
theorem mem_touch (represents : store.Represents graph) {id other : EdgeId} :
    other ∈ (store.touch id).batch ↔ other ∈ store.batch ∨ other = id := by
  unfold touch
  split
  · rename_i seen
    have member := (represents.seen id).mp
      (Std.ExtTreeSet.contains_iff_mem.mp seen)
    exact (or_iff_left_of_imp fun same => same ▸ member).symm
  · exact List.mem_append.trans (or_congr_right List.mem_singleton)

theorem nodup_touch (represents : store.Represents graph) (id : EdgeId) :
    (store.touch id).batch.Nodup := by
  unfold touch
  split
  · exact represents.nodup
  · rename_i notSeen
    refine List.nodup_append'.mpr
      ⟨represents.nodup, List.nodup_singleton id, ?_⟩
    rw [List.disjoint_singleton, ← represents.seen]
    exact fun member => notSeen (Std.ExtTreeSet.contains_iff_mem.mpr member)

theorem seen_touch (represents : store.Represents graph) {id other : EdgeId} :
    other ∈ (store.touch id).seen ↔ other ∈ (store.touch id).batch := by
  rw [represents.mem_touch, ← represents.seen]
  unfold touch
  split
  · rename_i seen
    have member := Std.ExtTreeSet.contains_iff_mem.mp seen
    exact (or_iff_left_of_imp fun same => same ▸ member).symm
  · rw [Std.ExtTreeSet.mem_insert, Std.LawfulEqOrd.compare_eq_iff_eq, or_comm,
      eq_comm]

/-- An edge that the batch touches is written, whether it is new or not. -/
theorem writeEdge (represents : store.Represents graph) (link : Link)
    (edge : Edge)
    (own : ∀ other old, graph.edges[other]? = some old →
      (old.id = edge.id ↔ other = link))
    (holds : later.Holds
      (Function.update (graph.edges[·]?) link (some edge)))
    (batch : later.batch = (store.touch edge.id).batch)
    (seen : later.seen = (store.touch edge.id).seen)
    (vertices : later.vertices = store.vertices)
    (undo : later.undo = store.undo)
    (edges : next.edges = graph.edges.insert link edge)
    (nextBatch : next.batch = graph.batch.insert link)
    (nextVertices : next.vertices = graph.vertices)
    (nextCreated : next.created = graph.created)
    (freshEdge : later.freshEdge = next.freshEdge) :
    later.Represents next := by
  have lookup : (next.edges[·]?) =
      Function.update (graph.edges[·]?) link (some edge) := by
    funext other
    rw [edges, Std.ExtTreeMap.getElem?_insert, Function.update_apply]
    simp only [Std.LawfulEqOrd.compare_eq_iff_eq, eq_comm (a := link)]
  constructor
  case vertices => rw [vertices, nextVertices, represents.vertices]
  case holds => exact lookup ▸ holds
  case freshEdge => exact freshEdge
  case nodup => exact batch ▸ represents.nodup_touch edge.id
  case tracked =>
    intro id touched
    rw [batch, represents.mem_touch] at touched
    rw [holds.exists_stored_iff]
    rcases touched with before | rfl
    · obtain ⟨other, old, found, rfl⟩ :=
        represents.holds.exists_stored_iff.mp (represents.tracked before)
      by_cases same : other = link
      · subst same
        have number := (own other old found).mpr rfl
        exact ⟨other, edge, Function.update_self .., number.symm⟩
      · refine ⟨other, old, ?_, rfl⟩
        rw [Function.update_of_ne same]
        exact found
    · exact ⟨link, edge, Function.update_self .., rfl⟩
  case batch =>
    intro other
    change _ ↔ ∃ stored, (next.edges[·]?) other = some stored ∧ _
    rw [nextBatch, Std.ExtTreeSet.mem_insert,
      Std.LawfulEqOrd.compare_eq_iff_eq, lookup, batch]
    simp only [represents.mem_touch]
    by_cases same : link = other
    · subst same
      exact iff_of_true (.inl rfl)
        ⟨edge, Function.update_self .., .inr rfl⟩
    · rw [or_iff_right same, represents.batch,
        Function.update_of_ne (Ne.symm same)]
      refine exists_congr fun old => and_congr_right fun found => ?_
      refine (or_iff_left fun number => same ?_).symm
      exact ((own other old found).mp number).symm
  case seen =>
    intro id
    rw [seen, batch]
    exact represents.seen_touch
  case created => exact nextCreated ▸ undo ▸ represents.created
  case undo => exact nextVertices ▸ undo ▸ represents.undo

/-- The property of a committed edge that would get another value is the same
one. -/
theorem edgeConflict? (represents : store.Represents graph) (link : Link)
    (values : List (PropertyId × Value)) :
    store.edgeConflict? link values = graph.edgeConflict? link values := by
  rw [Store.edgeConflict?, Graph.edgeConflict?, represents.holds.ids]
  cases found : graph.edges[link]? with
  | none => rfl
  | some edge =>
      have stored := represents.holds.getElem?_of_table found
      simp only [Option.map_some, Option.bind_eq_bind, Option.bind_some,
        stored]
      rfl

/-- An edge of the graph is touched and changed as it is in the graph. -/
theorem rewriteEdge (represents : store.Represents graph) {link : Link}
    {edge : Edge} (found : graph.edges[link]? = some edge)
    (change : StoredEdge → StoredEdge)
    (kept : (change (edge.stored link)).link = link) :
    ((store.touch edge.id).rewrite edge.id change).Represents
      { graph.touch link with
        edges := graph.edges.insert link
          ((change (edge.stored link)).edge edge.id) } := by
  refine represents.writeEdge link ((change (edge.stored link)).edge edge.id)
    ?own (represents.holds.touch_rewrite found change kept)
    (by simp [StoredEdge.edge]) (by simp [StoredEdge.edge]) (by simp)
    (by simp) rfl rfl rfl rfl ?fresh
  case own =>
    intro other old otherFound
    have number := represents.holds.id_eq_iff found otherFound
    exact number
  case fresh =>
    rw [rewrite_freshEdge, touch_freshEdge]
    exact represents.freshEdge

/-- A new edge is tracked, touched and changed as it is in the graph. -/
theorem addNew (represents : store.Represents graph) (sound : graph.Sound)
    {link : Link} (new : graph.edges[link]? = none)
    (values : List (PropertyId × Value)) :
    (((store.track link).2.touch ⟨store.freshEdge⟩).rewrite
      ⟨store.freshEdge⟩ (·.add values)).Represents
        (graph.writeEdge link values).2 := by
  have below (other : Link) (old : Edge)
      (present : graph.edges[other]? = some old) :
      old.id.number < store.freshEdge :=
    represents.freshEdge ▸ sound.fresh present
  have added : graph.addedEdge link values =
      ⟨⟨store.freshEdge⟩, .added, Properties.setAll ∅ values⟩ := by
    rw [Graph.addedEdge, new, represents.freshEdge]
  have number : (graph.addedEdge link values).id = ⟨store.freshEdge⟩ := by
    rw [added]
  have holds := (represents.holds.track new below).touch_rewrite
    (Function.update_self ..) (·.add values) rfl
  rw [Function.update_idem] at holds
  refine represents.writeEdge link (graph.addedEdge link values) ?own
    (added ▸ holds) (by simp [number]) (by simp [number]) ?vertices ?undo
    (by simp) (by simp) (by simp) (by simp) ?fresh
  case own =>
    intro other old present
    have less := below other old present
    refine iff_of_false (fun same => ?_) fun same => ?_
    · rw [same, number] at less
      exact Nat.lt_irrefl _ less
    · rw [same, new] at present
      cases present
  case vertices =>
    rw [rewrite_vertices, touch_vertices]
    rfl
  case undo =>
    rw [rewrite_undo, touch_undo]
    rfl
  case fresh =>
    rw [rewrite_freshEdge, touch_freshEdge, Graph.writeEdge, new]
    exact congrArg (· + 1) represents.freshEdge

/-- An edge is numbered, touched and changed as it is in the graph. -/
theorem addNumbered (represents : store.Represents graph)
    (sound : graph.Sound) (link : Link) (values : List (PropertyId × Value)) :
    (store.number link).1 = (graph.writeEdge link values).1 ∧
      (((store.number link).2.touch (store.number link).1).rewrite
        (store.number link).1 (·.add values)).Represents
          (graph.writeEdge link values).2 := by
  rw [Graph.writeEdge_fst, Graph.addedEdge]
  cases found : graph.edges[link]? with
  | some edge =>
      have numbered : store.number link = (edge.id, store) := by
        rw [number, represents.holds.ids, found]
        rfl
      rw [numbered, Graph.writeEdge, found]
      exact ⟨rfl, represents.rewriteEdge found (·.add values) rfl⟩
  | none =>
      have numbered : store.number link = store.track link := by
        rw [number, represents.holds.ids, found]
        rfl
      rw [numbered, ← represents.freshEdge]
      exact ⟨rfl, represents.addNew sound found values⟩

end Represents

theorem refuses_addEdge {link : Link} {values : List (PropertyId × Value)}
    {property : PropertyId}
    (conflict : store.edgeConflict? link values = some property) :
    addEdge link values store =
      (.error (.invalid (.changedEdge link.source link.target property)),
        store) := by
  have start : addEdge link values store = _ := run_bind_ok (run_get store)
  rw [start, conflict]
  rfl

/-- An edge without a conflict is numbered, touched and changed once its ends
are known. -/
theorem run_addEdge {middle later : Store} {link : Link}
    {values : List (PropertyId × Value)}
    (agrees : store.edgeConflict? link values = none)
    (source : putVertex link.source none [] store = (.ok (), middle))
    (target : putVertex link.target none [] middle = (.ok (), later)) :
    addEdge link values store =
      (.ok (later.number link).1,
        ((later.number link).2.touch (later.number link).1).rewrite
          (later.number link).1 (·.add values)) := by
  have start : addEdge link values store = _ := run_bind_ok (run_get store)
  rw [start, agrees]
  dsimp only
  rw [run_bind_ok source, run_bind_ok target]
  rfl

namespace Represents

/-- An edge is added to a store as it is added to the graph. -/
theorem addEdge (represents : store.Represents graph) (sound : graph.Sound)
    (link : Link) (values : List (PropertyId × Value)) :
    Follows (Store.addEdge link values store) graph
      (graph.addEdge link values) := by
  rw [Graph.addEdge, ← represents.edgeConflict?]
  cases conflict : store.edgeConflict? link values with
  | some property =>
      have refused : Store.addEdge link values store =
          (.error (.invalid (.changedEdge link.source link.target property)),
            store) := by
        exact refuses_addEdge conflict
      rw [refused]
      exact ⟨rfl, represents⟩
  | none =>
      obtain ⟨middle, source, first⟩ := represents.ensureVertex link.source
      obtain ⟨later, target, second⟩ := first.ensureVertex link.target
      rw [run_addEdge conflict source target]
      have known := (sound.ensureVertex link.source).ensureVertex link.target
      obtain ⟨number, written⟩ := second.addNumbered known link values
      exact ⟨congrArg Except.ok number, written⟩

/-- An edge is removed from a store as it is removed from the graph. -/
theorem removeEdge (represents : store.Represents graph) (link : Link) :
    (Store.removeEdge link store).1 = (graph.removeEdge? link).isSome ∧
      (Store.removeEdge link store).2.Represents
        ((graph.removeEdge? link).getD graph) := by
  simp only [Store.removeEdge, modifyGet, MonadStateOf.modifyGet,
    StateT.modifyGet, represents.holds.ids, Graph.removeEdge?]
  cases found : graph.edges[link]? with
  | none => exact ⟨rfl, represents⟩
  | some edge =>
      have stored := represents.holds.getElem?_of_table found
      have history : (edge.stored link).history = edge.history := rfl
      simp only [Option.map_some, stored, Option.bind_some, history,
        Option.bind_eq_bind, Option.pure_def]
      cases removed : edge.history.remove? with
      | none => exact ⟨rfl, represents⟩
      | some next =>
          exact ⟨rfl, represents.rewriteEdge found
            ({ · with history := next }) rfl⟩

end Represents

end Store

end DeltaGraph
