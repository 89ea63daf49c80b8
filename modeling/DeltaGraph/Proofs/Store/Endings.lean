import DeltaGraph.Proofs.Graph.Commit
import DeltaGraph.Proofs.Store.Represents

/-!
# The end of a batch in a store

A batch ends edge by edge.  The edges are dropped or settled in the order in
which they were touched, and each of them is counted by its history.  What is
left is what a graph has that is settled as a whole, since the edges that the
batch did not touch are settled already.
-/

namespace DeltaGraph

namespace Store

variable {store : Store} {graph : Graph} {table : Link → Option Edge}

/-- Ends the batch for an edge: the edge stays if its history passes a test. -/
def endEdge (keeps : EdgeHistory → Bool) (store : Store) (id : EdgeId) :
    Store :=
  match (store.edges[id]?).map StoredEdge.history with
  | none => store
  | some history =>
      if keeps history then store.settleEdge id else store.dropEdge id

/-- A rollback keeps the edges of the permanent version. -/
theorem rollbackEdge_eq (store : Store) (id : EdgeId) :
    store.rollbackEdge id = store.endEdge (·.visible .permanent) id := by
  unfold rollbackEdge endEdge
  cases (store.edges[id]?).map StoredEdge.history with
  | none => rfl
  | some history => cases history <;> rfl

/-- The table of edges once the batch has ended for some of them. -/
def ended (keeps : EdgeHistory → Bool) (ids : List EdgeId)
    (table : Link → Option Edge) (link : Link) : Option Edge := do
  let edge ← table link
  if edge.id ∈ ids then
    if keeps edge.history then some { edge with history := .committed }
    else none
  else some edge

theorem ended_nil (keeps : EdgeHistory → Bool)
    (table : Link → Option Edge) : ended keeps [] table = table := by
  funext link
  cases found : table link <;> simp [ended, found]

/-- The batch ends for one edge after another. -/
theorem ended_cons {keeps : EdgeHistory → Bool}
    (settled : keeps .committed = true) (id : EdgeId) (ids : List EdgeId)
    (table : Link → Option Edge) :
    ended keeps (id :: ids) table =
      ended keeps ids (ended keeps [id] table) := by
  funext link
  unfold ended
  cases table link with
  | none => rfl
  | some edge =>
      simp only [Option.bind_eq_bind, Option.bind_some, List.mem_cons,
        List.not_mem_nil, or_false]
      by_cases here : edge.id = id
      · rw [if_pos (.inl here), if_pos here]
        split <;> simp [settled]
      · rw [if_neg here]
        simp [here]

/-- What the end of the batch for one edge makes of the table. -/
theorem Holds.ended_eq (holds : store.Holds table) {id : EdgeId}
    {stored : StoredEdge} (found : store.edges[id]? = some stored)
    (keeps : EdgeHistory → Bool) :
    ended keeps [id] table = Function.update table stored.link
      (if keeps stored.history then
        some ({ stored with history := .committed }.edge id)
      else none) := by
  have present := (holds.edges id stored).mp found
  funext link
  rw [Function.update_apply, ended]
  by_cases here : link = stored.link
  · subst here
    rw [if_pos rfl, present]
    have number : (stored.edge id).id = id := rfl
    simp only [Option.bind_eq_bind, Option.bind_some, number,
      List.mem_singleton, if_true]
    rfl
  · rw [if_neg here]
    cases other : table link with
    | none => rfl
    | some edge =>
        have different : edge.id ≠ id := fun same =>
          here (holds.link_unique other present same)
        simp [different]

/-- The tables hold what is left once the batch has ended for an edge. -/
theorem Holds.endEdge
    (holds : store.Holds table)
    (keeps : EdgeHistory → Bool)
    (id : EdgeId) :
    (store.endEdge keeps id).Holds (ended keeps [id] table) := by
  unfold Store.endEdge
  cases found : store.edges[id]? with
  | none =>
      have same : ended keeps [id] table = table := by
        funext link
        unfold ended
        cases other : table link with
        | none => rfl
        | some edge =>
            have different : edge.id ≠ id := by
              rintro rfl
              rw [holds.getElem?_of_table other] at found
              cases found
            simp [different]
      rw [same]
      exact holds
  | some stored =>
      rw [holds.ended_eq found, Option.map_some]
      dsimp only
      split
      · exact holds.rewrite found rfl
      · exact holds.dropEdge found

/-- The tables hold what is left once the batch has ended for some edges, one
after another. -/
theorem Holds.endAll (holds : store.Holds table) (keeps : EdgeHistory → Bool)
    (settled : keeps .committed = true) (ids : List EdgeId) :
    (ids.foldl (Store.endEdge keeps) store).Holds (ended keeps ids table) := by
  induction ids generalizing store table with
  | nil =>
      rw [ended_nil]
      exact holds
  | cons id ids inductionHypothesis =>
      rw [ended_cons settled]
      exact inductionHypothesis (holds.endEdge keeps id)

/-! ## Counting what comes and what goes -/

/-- Whether an edge belongs to one version and not to another. -/
def changes (store : Store) (version other : Version) (id : EdgeId) : Bool :=
  (store.edges[id]?).any fun stored =>
    stored.history.visible version && !stored.history.visible other

/-- A commit keeps the edges of the merged version, and counts an edge that
comes or goes. -/
theorem commitEdge_eq (summary : CommitSummary) (store : Store)
    (id : EdgeId) :
    commitEdge (summary, store) id =
      ({ summary with
          promoted := summary.promoted +
            if store.changes .merged .permanent id then 1 else 0
          removed := summary.removed +
            if store.changes .permanent .merged id then 1 else 0 },
        store.endEdge (·.visible .merged) id) := by
  unfold commitEdge endEdge changes
  dsimp only
  cases store.edges[id]? with
  | none => rfl
  | some stored =>
      obtain ⟨link, history, properties⟩ := stored
      cases history <;> rfl

/-- The end of the batch for an edge leaves the other edges as they are. -/
theorem getElem?_endEdge (keeps : EdgeHistory → Bool) (store : Store)
    {id other : EdgeId} (different : id ≠ other) :
    (store.endEdge keeps id).edges[other]? = store.edges[other]? := by
  unfold endEdge settleEdge dropEdge rewrite
  cases store.edges[id]? with
  | none => rfl
  | some stored =>
      dsimp only [Option.map_some]
      split
      · rw [Std.ExtTreeMap.getElem?_insert, if_neg]
        simpa using different
      · rw [Std.ExtTreeMap.getElem?_erase, if_neg]
        simpa using different

/-- A commit goes through edges and counts those that come and those that
go. -/
theorem foldl_commitEdge (summary : CommitSummary) (store : Store)
    {ids : List EdgeId} (nodup : ids.Nodup) :
    ids.foldl commitEdge (summary, store) =
      ({ summary with
          promoted := summary.promoted +
            ids.countP (store.changes .merged .permanent)
          removed := summary.removed +
            ids.countP (store.changes .permanent .merged) },
        ids.foldl (endEdge (·.visible .merged)) store) := by
  induction ids generalizing summary store with
  | nil => rfl
  | cons id ids inductionHypothesis =>
      obtain ⟨new, rest⟩ := List.nodup_cons.mp nodup
      -- The edges to come are counted as they were before.
      have later (version other : Version) :
          ids.countP ((store.endEdge (·.visible .merged) id).changes
            version other) = ids.countP (store.changes version other) := by
        refine List.countP_congr fun next member => ?_
        have different : id ≠ next := fun same => new (same ▸ member)
        rw [changes, getElem?_endEdge _ _ different, changes]
      rw [List.foldl_cons, commitEdge_eq, inductionHypothesis _ _ rest,
        later, later, List.countP_cons, List.countP_cons, List.foldl_cons]
      refine Prod.ext ?_ rfl
      simp only [CommitSummary.mk.injEq]
      exact ⟨by omega, by omega, trivial⟩

/-! ## The batch of a store and of the graph -/

/-- The edges outside the batch are committed. -/
theorem Represents.committed (represents : store.Represents graph)
    (sound : graph.Sound) {id : EdgeId} {stored : StoredEdge}
    (found : store.edges[id]? = some stored) (untouched : id ∉ store.batch) :
    stored.history = .committed := by
  have present := (represents.holds.edges id stored).mp found
  have outside : stored.link ∉ graph.batch := by
    rw [represents.batch]
    rintro ⟨edge, again, touched⟩
    cases present.symm.trans again
    exact untouched touched
  exact sound.untouched present outside

/-- The numbers of the edges of the graph that pass a test. -/
def numbersOf (graph : Graph) (test : EdgeHistory → Bool) : List EdgeId :=
  (graph.edges.toList.filter fun (_, edge) => test edge.history).map (·.2.id)

theorem mem_numbersOf {test : EdgeHistory → Bool} {id : EdgeId} :
    id ∈ numbersOf graph test ↔
      ∃ (link : Link) (edge : Edge), graph.edges[link]? = some edge ∧
        test edge.history = true ∧ edge.id = id := by
  simp only [numbersOf, List.mem_map, List.mem_filter, Prod.exists,
    Std.ExtTreeMap.mem_toList_iff_getElem?_eq_some, and_assoc]

theorem length_numbersOf (graph : Graph) (test : EdgeHistory → Bool) :
    (numbersOf graph test).length =
      graph.edges.toList.countP fun (_, edge) => test edge.history := by
  rw [numbersOf, List.length_map, List.countP_eq_length_filter]

namespace Represents

/-- No number belongs to two edges of the graph. -/
theorem nodup_numbersOf (represents : store.Represents graph)
    (test : EdgeHistory → Bool) : (numbersOf graph test).Nodup := by
  refine List.pairwise_map.mpr
    ((Std.ExtTreeMap.distinct_keys_toList.filter _).imp_of_mem ?_)
  rintro ⟨link, edge⟩ ⟨other, another⟩ member otherMember different same
  rw [List.mem_filter, Std.ExtTreeMap.mem_toList_iff_getElem?_eq_some]
    at member otherMember
  have equal := represents.holds.link_unique member.1 otherMember.1 same
  exact different (by simp [equal])

/-- The edges that pass a test are as many in the store as in the graph. -/
theorem countP_edges (represents : store.Represents graph)
    (test : EdgeHistory → Bool) :
    (store.edges.toList.countP fun (_, stored) => test stored.history) =
      graph.edges.toList.countP fun (_, edge) => test edge.history := by
  rw [← length_numbersOf, List.countP_eq_length_filter,
    ← List.length_map (f := Prod.fst)]
  refine List.Perm.length_eq ((List.perm_ext_iff_of_nodup
    (nodup_keys_filter _ _) (represents.nodup_numbersOf test)).mpr
      fun id => ?_)
  simp only [mem_numbersOf, List.mem_map, List.mem_filter, Prod.exists,
    Std.ExtTreeMap.mem_toList_iff_getElem?_eq_some, exists_and_right,
    exists_eq_right]
  constructor
  · rintro ⟨stored, found, passes⟩
    exact ⟨_, _, (represents.holds.edges id stored).mp found, passes, rfl⟩
  · rintro ⟨link, edge, found, passes, rfl⟩
    exact ⟨_, represents.holds.getElem?_of_table found, passes⟩

/-- If committed edges do not pass a test, the edges that do are found in the
batch. -/
theorem countP_batch (represents : store.Represents graph)
    (sound : graph.Sound) (test : EdgeHistory → Bool)
    (fails : test .committed = false) :
    (store.batch.countP fun id =>
        (store.edges[id]?).any (test ·.history)) =
      graph.edges.toList.countP fun (_, edge) => test edge.history := by
  rw [← length_numbersOf, List.countP_eq_length_filter]
  refine List.Perm.length_eq ((List.perm_ext_iff_of_nodup
    (represents.nodup.filter _) (represents.nodup_numbersOf test)).mpr
      fun id => ?_)
  rw [mem_numbersOf, List.mem_filter, Option.any_eq_true]
  constructor
  · rintro ⟨-, stored, found, passes⟩
    exact ⟨_, _, (represents.holds.edges id stored).mp found, passes, rfl⟩
  · rintro ⟨link, edge, found, passes, rfl⟩
    have stored := represents.holds.getElem?_of_table found
    refine ⟨?_, _, stored, passes⟩
    by_contra untouched
    have committed := represents.committed sound stored untouched
    rw [show edge.history = .committed from committed, fails] at passes
    cases passes

/-- The store has touched as many edges as the graph. -/
theorem length_batch (represents : store.Represents graph) :
    store.batch.length = graph.batch.size := by
  have links : (store.batch.map fun id =>
      (store.edges[id]?).map StoredEdge.link).length = store.batch.length :=
    List.length_map _
  rw [← links, ← Std.ExtTreeSet.length_toList,
    ← List.length_map (f := some) (β := Option Link)]
  refine List.Perm.length_eq ((List.perm_ext_iff_of_nodup ?_ ?_).mpr
    fun link => ?_)
  · refine List.pairwise_map.mpr (represents.nodup.imp_of_mem ?_)
    intro id other member otherMember different same
    obtain ⟨stored, found⟩ := represents.tracked member
    obtain ⟨another, otherFound⟩ := represents.tracked otherMember
    rw [found, otherFound, Option.map_some, Option.map_some,
      Option.some.injEq] at same
    have present := (represents.holds.edges id stored).mp found
    rw [same, (represents.holds.edges other another).mp otherFound] at present
    exact different (congrArg (·.map Edge.id) present |> Option.some.inj).symm
  · refine (List.nodup_map_iff (Option.some_injective Link)).mpr ?_
    refine Std.ExtTreeSet.distinct_toList.imp ?_
    intro link other different same
    exact different (Std.LawfulEqOrd.compare_eq_iff_eq.mpr same)
  · simp only [List.mem_map, Std.ExtTreeSet.mem_toList, represents.batch]
    constructor
    · rintro ⟨id, member, rfl⟩
      obtain ⟨stored, found⟩ := represents.tracked member
      refine ⟨stored.link, ⟨_, (represents.holds.edges id stored).mp found,
        member⟩, ?_⟩
      rw [found]
      rfl
    · rintro ⟨link, ⟨edge, found, member⟩, rfl⟩
      refine ⟨edge.id, member, ?_⟩
      rw [represents.holds.getElem?_of_table found]
      rfl

end Represents

/-! ## Commit and rollback -/

/-- The end of the batch for an edge changes nothing but the tables of
edges. -/
theorem endEdge_eq (keeps : EdgeHistory → Bool) (store : Store) (id : EdgeId) :
    store.endEdge keeps id =
      { store with
        edges := (store.endEdge keeps id).edges
        ids := (store.endEdge keeps id).ids
        outgoing := (store.endEdge keeps id).outgoing
        incoming := (store.endEdge keeps id).incoming } := by
  unfold endEdge settleEdge dropEdge rewrite
  cases store.edges[id]? with
  | none => rfl
  | some stored =>
      dsimp only [Option.map_some]
      split <;> rfl

theorem foldl_endEdge_eq (keeps : EdgeHistory → Bool) (ids : List EdgeId)
    (store : Store) :
    ids.foldl (endEdge keeps) store =
      { store with
        edges := (ids.foldl (endEdge keeps) store).edges
        ids := (ids.foldl (endEdge keeps) store).ids
        outgoing := (ids.foldl (endEdge keeps) store).outgoing
        incoming := (ids.foldl (endEdge keeps) store).incoming } := by
  induction ids generalizing store with
  | nil => rfl
  | cons id ids inductionHypothesis =>
      rw [List.foldl_cons, inductionHypothesis, endEdge_eq keeps store id]

/-- The store once the batch has ended for all of its edges. -/
def settled (store : Store) (keeps : EdgeHistory → Bool) : Store :=
  store.batch.foldl (endEdge keeps) { store with batch := [] }

theorem settled_eq (store : Store) (keeps : EdgeHistory → Bool) :
    store.settled keeps =
      { store with
        edges := (store.settled keeps).edges
        ids := (store.settled keeps).ids
        outgoing := (store.settled keeps).outgoing
        incoming := (store.settled keeps).incoming
        batch := [] } :=
  foldl_endEdge_eq keeps store.batch { store with batch := [] }

/-- The edges of the graph that survive are those that are left once the batch
has ended for the edges that it touched. -/
theorem Represents.ended_batch (represents : store.Represents graph)
    (sound : graph.Sound) {version : Version}
    (shown : EdgeHistory.committed.visible version = true) :
    ended (·.visible version) store.batch (graph.edges[·]?) =
      graph.survivor? version := by
  funext link
  unfold ended Graph.survivor?
  dsimp only
  cases found : graph.edges[link]? with
  | none => rfl
  | some edge =>
      simp only [Option.bind_eq_bind, Option.bind_some]
      split
      · rw [Option.filter_some]
        split <;> rfl
      · rename_i untouched
        have committed := represents.committed sound
          (represents.holds.getElem?_of_table found) untouched
        obtain ⟨id, history, properties⟩ := edge
        cases committed
        rw [Option.filter_some, if_pos shown]
        rfl

/-- The batch ends for the edges that it touched, and so it ends for all edges
of the graph. -/
theorem Represents.settled (represents : store.Represents graph)
    (sound : graph.Sound) {version : Version}
    (shown : EdgeHistory.committed.visible version = true) :
    (store.settled (·.visible version)).clearBatch.Represents
      (graph.settle (·.visible version)) := by
  have start : ({ store with batch := [] } : Store).Holds
      (graph.edges[·]?) := represents.holds.congr rfl rfl rfl
  have left := start.endAll (·.visible version) shown store.batch
  rw [represents.ended_batch sound shown] at left
  have survivors : graph.survivor? version =
      ((graph.settle (·.visible version)).edges[·]?) :=
    funext fun link => (graph.getElem?_settle version link).symm
  rw [survivors] at left
  rw [settled_eq]
  constructor
  case vertices => exact represents.vertices
  case holds => exact left.congr rfl rfl rfl
  case freshEdge => exact represents.freshEdge
  case nodup => exact .nil
  case tracked => rintro id ⟨⟩
  case batch =>
    intro link
    simp [Graph.settle, clearBatch]
  case seen =>
    intro id
    simp [clearBatch]
  case created =>
    intro vertex
    simp [Graph.settle, clearBatch]
  case undo =>
    intro vertex content noted
    simp [clearBatch] at noted

/-- A commit counts the edges of the batch, and ends the batch for all of
them. -/
theorem commit_eq (store : Store) (nodup : store.batch.Nodup) :
    store.commit =
      ({ promoted := store.batch.countP (store.changes .merged .permanent)
         removed := store.batch.countP (store.changes .permanent .merged)
         touched := store.batch.length },
        (store.settled (·.visible .merged)).clearBatch) := by
  rw [commit, foldl_commitEdge _ _ nodup]
  simp only [Nat.zero_add]
  rfl

/-- A commit does to a store what it does to the graph, and counts alike. -/
theorem Represents.commit (represents : store.Represents graph)
    (sound : graph.Sound) :
    store.commit.1 = graph.commit.1 ∧
      store.commit.2.Represents graph.commit.2 := by
  rw [store.commit_eq represents.nodup]
  refine ⟨?_, represents.settled sound rfl⟩
  have changed (version other : Version)
      (same : (EdgeHistory.committed.visible version &&
        !EdgeHistory.committed.visible other) = false) :
      store.batch.countP (store.changes version other) =
        graph.countChanged version other := by
    rw [Graph.countChanged, Graph.edgesIn, List.countP_filter]
    refine (represents.countP_batch sound (fun history =>
      history.visible version && !history.visible other) same).trans ?_
    refine List.countP_congr fun entry _ => ?_
    simp [and_comm]
  simp only [Graph.commit, CommitSummary.mk.injEq]
  exact ⟨changed _ _ rfl, changed _ _ rfl, represents.length_batch⟩

/-! ## Taking vertices back -/

theorem getElem?_restoreVertex (vertices : Std.ExtTreeMap VertexId Vertex)
    (vertex other : VertexId) (prior : Option Vertex) :
    (restoreVertex vertices vertex prior)[other]? =
      if vertex = other then prior else vertices[other]? := by
  cases prior with
  | none =>
      rw [restoreVertex, Std.ExtTreeMap.getElem?_erase]
      simp only [Std.LawfulEqOrd.compare_eq_iff_eq]
  | some content =>
      rw [restoreVertex, Std.ExtTreeMap.getElem?_insert]
      simp only [Std.LawfulEqOrd.compare_eq_iff_eq]

/-- Vertices without a note stay what they are. -/
theorem getElem?_foldl_of_absent {notes : List (VertexId × Option Vertex)}
    {vertex : VertexId} (absent : ∀ prior, (vertex, prior) ∉ notes)
    (vertices : Std.ExtTreeMap VertexId Vertex) :
    (notes.foldl (fun restored note =>
      restoreVertex restored note.1 note.2) vertices)[vertex]? =
        vertices[vertex]? := by
  induction notes generalizing vertices with
  | nil => rfl
  | cons note notes inductionHypothesis =>
      have different : note.1 ≠ vertex := fun same =>
        absent note.2 (same ▸ .head _)
      rw [List.foldl_cons, inductionHypothesis
        fun prior later => absent prior (.tail _ later),
        getElem?_restoreVertex, if_neg different]

/-- A vertex with a note becomes what is noted. -/
theorem getElem?_foldl_of_noted {notes : List (VertexId × Option Vertex)}
    (distinct : notes.Pairwise fun note other => note.1 ≠ other.1)
    {vertex : VertexId} {prior : Option Vertex}
    (noted : (vertex, prior) ∈ notes)
    (vertices : Std.ExtTreeMap VertexId Vertex) :
    (notes.foldl (fun restored note =>
      restoreVertex restored note.1 note.2) vertices)[vertex]? = prior := by
  induction notes generalizing vertices with
  | nil => cases noted
  | cons note notes inductionHypothesis =>
      obtain ⟨others, rest⟩ := List.pairwise_cons.mp distinct
      rw [List.foldl_cons]
      rcases List.mem_cons.mp noted with rfl | later
      · have absent (another : Option Vertex) :
            (vertex, another) ∉ notes := fun again => others _ again rfl
        rw [getElem?_foldl_of_absent absent, getElem?_restoreVertex,
          if_pos rfl]
      · exact inductionHypothesis rest later _

/-- Vertices that the batch created go, and all others are what they were. -/
theorem Represents.restored (represents : store.Represents graph) :
    store.undo.foldl restoreVertex store.vertices =
      graph.vertices.filter fun vertex _ =>
        !graph.created.contains vertex := by
  refine Std.ExtTreeMap.ext_getElem? fun vertex => ?_
  have distinct : (store.undo.toList.map Prod.fst).Nodup := by
    rw [Std.ExtTreeMap.map_fst_toList_eq_keys]
    exact Std.ExtTreeMap.nodup_keys
  rw [Std.ExtTreeMap.foldl_eq_foldl_toList,
    Std.ExtTreeMap.getElem?_filter']
  simp only [represents.contains_created]
  cases noted : store.undo[vertex]? with
  | none =>
      have absent (prior : Option Vertex) :
          (vertex, prior) ∉ store.undo.toList := by
        rw [Std.ExtTreeMap.mem_toList_iff_getElem?_eq_some, noted]
        rintro ⟨⟩
      rw [getElem?_foldl_of_absent absent, represents.vertices]
      cases graph.vertices[vertex]? <;> simp [Option.filter]
  | some prior =>
      rw [getElem?_foldl_of_noted (List.pairwise_map.mp distinct)
        (Std.ExtTreeMap.mem_toList_iff_getElem?_eq_some.mpr noted)]
      cases prior with
      | none => simp
      | some content => simp [represents.undo noted, Option.filter]

/-- A rollback does to a store what it does to the graph, and tells the same
number. -/
theorem Represents.rollback (represents : store.Represents graph)
    (sound : graph.Sound) :
    store.rollback.1 = graph.rollback.1 ∧
      store.rollback.2.Represents graph.rollback.2 := by
  have ends : Store.rollbackEdge = endEdge (·.visible .permanent) :=
    funext fun store => funext fun id => rollbackEdge_eq store id
  have restored : store.rollback = (store.batch.length,
      { (store.settled (·.visible .permanent)).clearBatch with
        vertices := graph.rollback.2.vertices }) := by
    have undo : (store.settled (·.visible .permanent)).undo = store.undo := by
      rw [settled_eq]
    have vertices :
        (store.settled (·.visible .permanent)).vertices = store.vertices := by
      rw [settled_eq]
    have left : graph.rollback.2.vertices = _ := represents.restored.symm
    rw [left, ← undo, ← vertices, Store.rollback, ends]
    rfl
  rw [restored]
  refine ⟨represents.length_batch, ?_⟩
  have shown : EdgeHistory.committed.visible .permanent = true := rfl
  have settled := represents.settled sound shown
  exact
    { settled with
      vertices := rfl
      holds := settled.holds.congr rfl rfl rfl
      undo := fun noted => by simp [clearBatch] at noted }

end Store

end DeltaGraph
