import DeltaGraph.Proofs.Graph.Answers
import Mathlib.Data.List.Dedup

/-!
# Taking back a batch

However a batch is staged, taking it back leads to a graph that answers every
query as the graph did before the batch, and tells how many edges the batch had
touched.
-/

namespace DeltaGraph

namespace Graph

/-! ## The edges that a batch touches -/

/-- A step keeps the numbers of the edges. -/
theorem links_stage
    {graph : Graph}
    (sound : graph.Sound)
    (step : BatchStep)
    {id : EdgeId}
    {link : Link}
    (linked : graph.links[id]? = some link) :
    (graph.stage step).links[id]? = some link := by
  have next := sound.stage step
  obtain ⟨edge, found, number⟩ := (sound.links_iff id link).mp linked
  refine (next.links_iff id link).mpr ?_
  rcases graph.stage_cases step with same | ⟨vertex, type, values, _, same⟩ |
    ⟨other, values, _, same⟩ | ⟨other, removal⟩
  · rw [same]
    exact ⟨edge, found, number⟩
  · rw [same]
    exact ⟨edge, found, number⟩
  · rw [same, getElem?_writeEdge]
    by_cases equal : other = link
    · subst equal
      exact ⟨_, if_pos rfl, by simpa [addedEdge, found] using number⟩
    · exact ⟨edge, by simpa [equal] using found, number⟩
  · obtain ⟨stored, history, present, _, result⟩ := removeEdge?_eq_some removal
    rw [result]
    by_cases equal : other = link
    · subst equal
      rw [found] at present
      cases present
      exact ⟨_, Std.ExtTreeMap.getElem?_insert_self, number⟩
    · exact ⟨edge, by simpa [Std.ExtTreeMap.getElem?_insert, equal] using found,
        number⟩

theorem links_stageAll
    {graph : Graph}
    (sound : graph.Sound)
    (steps : List BatchStep)
    {id : EdgeId}
    {link : Link}
    (linked : graph.links[id]? = some link) :
    (graph.stageAll steps).links[id]? = some link := by
  induction steps generalizing graph with
  | nil => exact linked
  | cons step rest inductionHypothesis =>
      exact inductionHypothesis (sound.stage step)
        (links_stage sound step linked)

/-- A step adds to the batch the edge that it touches. -/
theorem batch_stage {graph : Graph} (sound : graph.Sound) (step : BatchStep) :
    (graph.touched? step = none ∧ (graph.stage step).batch = graph.batch) ∨
      ∃ id link, graph.touched? step = some id ∧
        (graph.stage step).links[id]? = some link ∧
        (graph.stage step).batch = graph.batch.insert link := by
  have next := sound.stage step
  cases step with
  | putVertex vertex type values =>
      left
      refine ⟨rfl, ?_⟩
      simp only [stage, putVertex]
      split
      · split <;> rfl
      · rfl
  | addEdge link values =>
      cases conflict : graph.edgeConflict? link values with
      | some property =>
          left
          simp [touched?, stage, addEdge, conflict, Except.toOption]
      | none =>
          right
          have result : graph.stage (.addEdge link values) =
              (((graph.ensureVertex link.source).ensureVertex
                  link.target).writeEdge
                link values).2 := by
            simp [stage, addEdge, conflict, Except.toOption]
          refine ⟨_, link,
            by simp [touched?, addEdge, conflict, Except.toOption]; rfl, ?_, ?_⟩
          · rw [next.links_iff, result, getElem?_writeEdge, if_pos rfl,
              writeEdge_fst]
            exact ⟨_, rfl, rfl⟩
          · simp [result]
  | removeEdge link =>
      cases removal : graph.removeEdge? link with
      | none =>
          left
          simp [touched?, stage, removal]
      | some after =>
          right
          obtain ⟨edge, history, found, _, result⟩ :=
            removeEdge?_eq_some removal
          refine ⟨edge.id, link, by simp [touched?, removal, found], ?_, ?_⟩
          · refine links_stage sound _
              ((sound.links_iff edge.id link).mpr ⟨edge, found, rfl⟩)
          · simp [stage, removal, result, touch]

/-- The batch holds the links of the edges that the steps touched. -/
theorem mem_batch_stageAll
    {graph : Graph}
    (sound : graph.Sound)
    (steps : List BatchStep)
    (link : Link) :
    link ∈ (graph.stageAll steps).batch ↔
      link ∈ graph.batch ∨
        ∃ id ∈ graph.touchedAll steps,
          (graph.stageAll steps).links[id]? = some link := by
  induction steps generalizing graph with
  | nil => simp [stageAll, touchedAll]
  | cons step rest inductionHypothesis =>
      have later := inductionHypothesis (sound.stage step)
      have keeps {id : EdgeId} {other : Link}
          (linked : (graph.stage step).links[id]? = some other) :
          ((graph.stage step).stageAll rest).links[id]? = some other :=
        links_stageAll (sound.stage step) rest linked
      simp only [stageAll, List.foldl_cons] at later keeps ⊢
      rw [later, touchedAll]
      rcases batch_stage sound step
        with ⟨untouched, batch⟩ | ⟨id, other, touched, linked, batch⟩
      · simp [untouched, batch]
      · simp only [touched, batch, Option.toList_some, List.cons_append,
          List.nil_append, List.mem_cons, Std.ExtTreeSet.mem_insert,
          Std.LawfulEqOrd.compare_eq_iff_eq, exists_eq_or_imp, keeps linked,
          Option.some.injEq]
        tauto

theorem linked_of_touched
    {graph : Graph}
    (sound : graph.Sound)
    (steps : List BatchStep)
    {id : EdgeId}
    (touched : id ∈ graph.touchedAll steps) :
    ∃ link, (graph.stageAll steps).links[id]? = some link := by
  induction steps generalizing graph with
  | nil => simp [touchedAll] at touched
  | cons step rest inductionHypothesis =>
      rw [touchedAll, List.mem_append, Option.mem_toList] at touched
      rcases touched with now | later
      · rcases batch_stage sound step
          with ⟨untouched, _⟩ | ⟨first, link, found, linked, _⟩
        · simp [untouched] at now
        · cases found.symm.trans now
          exact ⟨link, links_stageAll (sound.stage step) rest linked⟩
      · exact inductionHypothesis (sound.stage step) later

/-- A link has one number. -/
theorem Sound.number_unique
    {graph : Graph}
    (sound : graph.Sound)
    {id other : EdgeId}
    {link : Link}
    (linked : graph.links[id]? = some link)
    (otherLinked : graph.links[other]? = some link) : id = other := by
  obtain ⟨edge, found, rfl⟩ := (sound.links_iff id link).mp linked
  obtain ⟨again, present, rfl⟩ := (sound.links_iff other link).mp otherLinked
  rw [found] at present
  cases present
  rfl

/-- A batch that starts empty comes to hold as many links as there are edges
that its steps touch. -/
theorem size_batch_stageAll
    {graph : Graph}
    (sound : graph.Sound)
    (start : graph.batch = ∅)
    (steps : List BatchStep) :
    (graph.stageAll steps).batch.size =
      (graph.touchedAll steps).dedup.length := by
  have finalSound := sound.stageAll steps
  have links : ((graph.stageAll steps).batch.toList.map some).Nodup := by
    refine List.Nodup.map (fun _ _ same => Option.some.inj same) ?_
    refine Std.ExtTreeSet.distinct_toList.imp ?_
    rintro left _ different rfl
    exact different Std.ReflCmp.compare_self
  have numbers :
      ((graph.touchedAll steps).dedup.map
        ((graph.stageAll steps).links[·]?)).Nodup := by
    refine (List.nodup_dedup _).map_on fun id touched other _ same => ?_
    obtain ⟨link, linked⟩ :=
      linked_of_touched sound steps (List.mem_dedup.mp touched)
    exact finalSound.number_unique linked (same ▸ linked)
  have members (link? : Option Link) :
      link? ∈ (graph.stageAll steps).batch.toList.map some ↔
        link? ∈
          (graph.touchedAll steps).dedup.map
            ((graph.stageAll steps).links[·]?) := by
    simp only [List.mem_map, Std.ExtTreeSet.mem_toList, List.mem_dedup]
    constructor
    · rintro ⟨link, touched, rfl⟩
      simpa [start] using (mem_batch_stageAll sound steps link).mp touched
    · rintro ⟨id, touched, rfl⟩
      obtain ⟨link, linked⟩ := linked_of_touched sound steps touched
      refine ⟨link, ?_, linked.symm⟩
      exact (mem_batch_stageAll sound steps link).mpr
        (.inr ⟨id, touched, linked⟩)
  have same :=
    ((List.perm_ext_iff_of_nodup links numbers).mpr members).length_eq
  simpa using same

/-! ## Between batches -/

theorem Settled.batch_eq_empty
    {graph : Graph}
    (settled : graph.Settled) : graph.batch = ∅ := by
  cases settled <;> rfl

theorem Settled.created_eq_empty {graph : Graph} (settled : graph.Settled) :
    graph.created = ∅ := by
  cases settled <;> rfl

/-- Between batches every edge is plainly committed, and is shown where such an
edge is. -/
theorem survivor?_of_batch_eq_empty {graph : Graph} (sound : graph.Sound)
    (quiet : graph.batch = ∅) {version : Version}
    (shown : EdgeHistory.committed.visible version = true) (link : Link) :
    graph.survivor? version link = graph.edges[link]? := by
  cases found : graph.edges[link]? with
  | none => simp [survivor?, found]
  | some edge =>
      have plain : edge.history = .committed :=
        sound.untouched found (by simp [quiet])
      obtain ⟨id, history, properties⟩ := edge
      cases plain
      simp [survivor?, found, Option.filter, shown]

theorem getElem?_vertices_rollback (graph : Graph) (vertex : VertexId) :
    graph.rollback.2.vertices[vertex]? =
      if vertex ∈ graph.created then none else graph.vertices[vertex]? := by
  simp only [rollback, Std.ExtTreeMap.getElem?_filter']
  by_cases new : vertex ∈ graph.created
  · cases graph.vertices[vertex]? <;> simp [new, Option.filter]
  · cases graph.vertices[vertex]? <;> simp [new, Option.filter]

theorem getElem?_edges_rollback (graph : Graph) (link : Link) :
    graph.rollback.2.edges[link]? = graph.survivor? .permanent link :=
  getElem?_settle graph .permanent link

/-- Steps that were staged make no difference to the tables that taking back the
batch leads to. -/
theorem Continues.alike_rollback
    {start now : Graph}
    (continues : start.Continues now) :
    now.rollback.2.Alike start.rollback.2 where
  vertices := by
    refine Std.ExtTreeMap.ext_getElem? fun vertex => ?_
    rw [getElem?_vertices_rollback, getElem?_vertices_rollback]
    by_cases new : vertex ∈ now.created
    · rw [if_pos new]
      rcases continues.unknown new with old | missing
      · rw [if_pos old]
      · rw [missing, ite_self]
    · rw [if_neg new, if_neg (mt continues.created new)]
      exact continues.vertices new
  edges link := by
    rw [getElem?_edges_rollback, getElem?_edges_rollback]
    exact continues.committed link
  batch := rfl

/-- With nothing pending there is nothing to take back. -/
theorem Sound.alike_rollback_of_quiet
    {graph : Graph}
    (sound : graph.Sound)
    (quiet : graph.batch = ∅)
    (old : graph.created = ∅) :
    graph.rollback.2.Alike graph where
  vertices := by
    refine Std.ExtTreeMap.ext_getElem? fun vertex => ?_
    rw [getElem?_vertices_rollback, if_neg (by simp [old])]
  edges link := by
    rw [getElem?_edges_rollback, survivor?_of_batch_eq_empty sound quiet rfl]
    exact optionRel_refl Edge.Alike.refl _
  batch := quiet.symm

/-- A graph in which steps were staged has the tables it started with once they
are taken back. -/
theorem alike_rollback {start now : Graph} (settled : start.Settled)
    (continues : start.Continues now) : now.rollback.2.Alike start :=
  continues.alike_rollback.trans
    (settled.reachable.sound.alike_rollback_of_quiet settled.batch_eq_empty
      settled.created_eq_empty)

/-- Taking back a batch restores every answer of the graph, leaves nothing
pending and gives the number of distinct edges that the batch touched. -/
theorem rollback_restores {start : Graph} (settled : start.Settled)
    (steps : List BatchStep) :
    (start.stageAll steps).rollback.2.AnswersAs start ∧
      (start.stageAll steps).rollback.2.isPending = false ∧
      (start.stageAll steps).rollback.1 =
        (start.touchedAll steps).dedup.length := by
  have sound := settled.reachable.sound
  have alike := alike_rollback settled (start.continues_stageAll steps)
  refine ⟨alike.answersAs (sound.stageAll steps).rollback sound, rfl, ?_⟩
  exact size_batch_stageAll sound settled.batch_eq_empty steps

/-- A batch that toggles a committed edge, creates an edge and a vertex, gives
the vertex another type, and tries in vain to retype a committed vertex. -/
theorem rollback_restores_toggled_edge :
    let start :=
      (empty.stage (.addEdge ⟨⟨1⟩, ⟨2⟩, .default⟩ [(⟨0⟩, .int 7)])).commit.2
    let steps : List BatchStep :=
      [.removeEdge ⟨⟨1⟩, ⟨2⟩, .default⟩, .addEdge ⟨⟨1⟩, ⟨2⟩, .default⟩ [],
        .addEdge ⟨⟨2⟩, ⟨3⟩, ⟨1⟩⟩ [], .putVertex ⟨3⟩ (some ⟨1⟩) [],
        .putVertex ⟨1⟩ (some ⟨2⟩) [], .removeEdge ⟨⟨2⟩, ⟨3⟩, ⟨1⟩⟩]
    start.Settled ∧ (start.stageAll steps).rollback.2.AnswersAs start ∧
      (start.stageAll steps).rollback.2.isPending = false ∧
      (start.stageAll steps).rollback.1 =
        (start.touchedAll steps).dedup.length := by
  intro start steps
  have settled : start.Settled := .commit (.stage _ .empty)
  exact ⟨settled, rollback_restores settled steps⟩

end Graph

end DeltaGraph
