import DeltaGraph.Proofs.Maintenance.Mixture
import DeltaGraph.Proofs.Maintenance.Replay

/-!
# The events of a standing plan

The delta plans of a standing plan deliver their events one plan after another.
The events lead from the rows of the committed graph to those of the merged
graph, one relation at a time.
-/

namespace DeltaGraph

/-- The events of a delta plan on a graph with a pending batch. -/
def DeltaPlan.events (delta : DeltaPlan) (graph : Graph) : List Event :=
  (delta.plan.collectEvents graph {}).2.1

namespace StandingPlan

/-- The events of all delta plans, in the order of the plans. -/
def events (plan : StandingPlan) (graph : Graph) : List Event :=
  plan.deltas.flatMap (·.events graph)

/-- The events of the delta plans of the relations before an index. -/
def eventsBefore
    (plan : StandingPlan)
    (graph : Graph)
    (index : Nat) : List Event :=
  (plan.deltas.filter (·.relation < index)).flatMap (·.events graph)

end StandingPlan

theorem Plan.WellFormed.events_eq
    {delta : DeltaPlan}
    (wellFormed : delta.plan.WellFormed)
    {graph : Graph}
    (sound : graph.Sound) :
    delta.events graph = delta.plan.events graph := by
  obtain ⟨counts, later, collected, _⟩ := wellFormed.collectEvents_eq sound {}
  rw [DeltaPlan.events, collected]

namespace DeltaPlan.Implements

variable {pattern : Pattern} {catalog : Catalog} {graph : Graph}
  {delta : DeltaPlan}
  {start : Difference}

/-- Additions emerge. -/
theorem events_of_additions
    (implements : delta.Implements pattern catalog start)
    (sound : graph.Sound)
    (additions : start.version = .additions) :
    delta.events graph = (delta.plan.rows graph).map (Event.mk .emerged) := by
  rw [implements.plan.wellFormed.events_eq sound, Plan.events, Plan.rowKind,
    implements.startVersion, additions]

/-- Removals are deleted. -/
theorem events_of_removals (implements : delta.Implements pattern catalog start)
    (sound : graph.Sound) (removals : start.version = .removals) :
    delta.events graph = (delta.plan.rows graph).map (Event.mk .deleted) := by
  rw [implements.plan.wellFormed.events_eq sound, Plan.events, Plan.rowKind,
    implements.startVersion, removals]

end DeltaPlan.Implements

namespace StandingPlan

variable {pattern : Pattern} {catalog : Catalog} {graph : Graph}

/-- The two delta plans of a relation move it to the merged version. -/
theorem replay_relation
    (valid : pattern.Valid)
    (sound : graph.Sound)
    {index : Nat}
    (inside : index < pattern.relations.length)
    {additions removals : DeltaPlan}
    (adds : additions.Implements pattern catalog ⟨index, .additions⟩)
    (removes : removals.Implements pattern catalog ⟨index, .removals⟩)
    {copies : Copies}
    (of :
      copies.Of
        (pattern.Yields catalog graph
          (Difference.mk index .permanent).reading)) :
    ∃ later,
      copies.replay (additions.events graph ++ removals.events graph) =
        some later ∧
      later.Of
        (pattern.Yields catalog graph
          (Difference.mk (index + 1) .permanent).reading) ∧
      copies.Safe (additions.events graph ++ removals.events graph) := by
  obtain ⟨later, replayed, ofLater, safe⟩ := Copies.replay_block
    (fun version row =>
      pattern.Yields catalog graph (Difference.mk index version).reading row)
    (fun _ => Pattern.exists_history inside) of
    (adds.plan.wellFormed.nodup_rows sound)
    (fun _ => adds.plan.mem_rows_iff valid sound)
    (removes.plan.wellFormed.nodup_rows sound)
    (fun _ => removes.plan.mem_rows_iff valid sound)
  rw [adds.events_of_additions sound rfl, removes.events_of_removals sound rfl]
  exact ⟨later, replayed, ofLater.congr fun _ => Pattern.yields_next index,
    safe⟩

/-- None of the remaining delta plans is one of an earlier relation. -/
theorem filter_eq_nil
    {index : Nat}
    (relations : List Relation)
    {deltas : List DeltaPlan}
    (implement :
      List.Forall₂ (fun start delta => delta.Implements pattern catalog start)
        (Relation.differences index relations) deltas)
    {bound : Nat}
    (early : bound ≤ index) :
    deltas.filter (·.relation < bound) = [] := by
  rw [List.filter_eq_nil_iff]
  intro delta member
  obtain ⟨start, among, started⟩ := exists_left_of_forall₂ implement member
  have later := (Relation.bounds_of_mem_differences among).1
  rw [decide_eq_true_iff, started.relation]
  omega

theorem filter_cons_cons {index bound : Nat} (inside : index < bound)
    {additions removals : DeltaPlan}
    (adds : additions.Implements pattern catalog ⟨index, .additions⟩)
    (removes : removals.Implements pattern catalog ⟨index, .removals⟩)
    (others : List DeltaPlan) :
    (additions :: removals :: others).filter (·.relation < bound) =
      additions :: removals :: others.filter (·.relation < bound) := by
  have isAdded : additions.relation = index := adds.relation
  have isRemoved : removals.relation = index := removes.relation
  rw [List.filter_cons_of_pos (by simp [isAdded, inside]),
    List.filter_cons_of_pos (by simp [isRemoved, inside])]

/-- The remaining relations move one after another. -/
theorem replay_deltas
    (valid : pattern.Valid)
    (sound : graph.Sound)
    {index : Nat}
    {relations : List Relation}
    (rest : pattern.relations.drop index = relations)
    {deltas : List DeltaPlan}
    (implement :
      List.Forall₂ (fun start delta => delta.Implements pattern catalog start)
        (Relation.differences index relations) deltas)
    {copies : Copies}
    (of :
      copies.Of
        (pattern.Yields catalog graph
          (Difference.mk index .permanent).reading)) :
    copies.Safe (deltas.flatMap (·.events graph)) ∧
      ∀ bound, index ≤ bound → bound ≤ pattern.relations.length →
        ∃ later,
          copies.replay
            ((deltas.filter (·.relation < bound)).flatMap (·.events graph)) =
            some later ∧
          later.Of
            (pattern.Yields catalog graph
              (Difference.mk bound .permanent).reading) := by
  induction relations generalizing index deltas copies with
  | nil =>
      cases implement
      have ended := List.drop_eq_nil_iff.mp rest
      refine ⟨fun count => ⟨copies, by simp [Copies.replay], fun row => ?_⟩,
        fun bound above below => ?_⟩
      · exact Nat.le_trans (of.le_one row) (by omega)
      · have last : bound = index := by omega
        exact ⟨copies, rfl, last ▸ of⟩
  | cons relation relations inductionHypothesis =>
      have inside : index < pattern.relations.length := by
        by_contra outside
        rw [List.drop_eq_nil_iff.mpr (by omega)] at rest
        cases rest
      have restLater : pattern.relations.drop (index + 1) = relations := by
        rw [← List.tail_drop, rest]
        rfl
      cases implement with
      | cons adds implement =>
          cases implement with
          | cons removes implement =>
              obtain ⟨moved, replayed, ofMoved, safe⟩ :=
                replay_relation valid sound inside adds removes of
              obtain ⟨safeLater, eachLater⟩ :=
                inductionHypothesis restLater implement ofMoved
              refine ⟨?_, fun bound above below => ?_⟩
              · rw [List.flatMap_cons, List.flatMap_cons, ← List.append_assoc]
                exact safe.append replayed safeLater
              · by_cases first : bound = index
                · subst first
                  rw [filter_eq_nil (relation :: relations)
                    (.cons adds (.cons removes implement)) (Nat.le_refl bound)]
                  exact ⟨copies, rfl, of⟩
                · obtain ⟨later, reached, ofLater⟩ :=
                    eachLater bound (by omega) below
                  refine ⟨later, ?_, ofLater⟩
                  rw [filter_cons_cons (by omega) adds removes,
                    List.flatMap_cons, List.flatMap_cons, ←
                      List.append_assoc, Copies.replay_append replayed]
                  exact reached

/-- The delta plans come in the order of their relations. -/
theorem prefix_filter
    {index : Nat}
    {relations : List Relation}
    {deltas : List DeltaPlan}
    (implement :
      List.Forall₂ (fun start delta => delta.Implements pattern catalog start)
        (Relation.differences index relations) deltas)
    (bound : Nat) :
    deltas.filter (·.relation < bound) <+: deltas := by
  induction relations generalizing index deltas with
  | nil =>
      cases implement
      exact List.prefix_refl _
  | cons relation relations inductionHypothesis =>
      by_cases early : bound ≤ index
      · rw [filter_eq_nil _ implement early]
        exact List.nil_prefix
      · cases implement with
        | cons adds implement =>
            cases implement with
            | cons removes implement =>
                rw [filter_cons_cons (by omega) adds removes,
                  List.cons_prefix_cons, List.cons_prefix_cons]
                exact ⟨rfl, rfl, inductionHypothesis implement⟩

variable {plan : StandingPlan}

/-- The events of a standing plan are safe to replay on the rows of the
committed graph. -/
theorem Implements.safe
    (implements : plan.Implements pattern catalog)
    (valid : pattern.Valid)
    (sound : graph.Sound)
    {copies : Copies}
    (of : copies.Of (pattern.Yields catalog graph fun _ => .permanent)) :
    copies.Safe (plan.events graph) :=
  (replay_deltas valid sound rfl implements
    (of.congr fun _ => Pattern.yields_first.symm)).1

/-- After the events of the first relations these have moved to the merged
version. -/
theorem Implements.replay_eventsBefore
    (implements : plan.Implements pattern catalog)
    (valid : pattern.Valid)
    (sound : graph.Sound)
    {copies : Copies}
    (of : copies.Of (pattern.Yields catalog graph fun _ => .permanent))
    {index : Nat}
    (inside : index ≤ pattern.relations.length) :
    ∃ later, copies.replay (plan.eventsBefore graph index) = some later ∧
      later.Of
        (pattern.Yields catalog graph
          (Difference.mk index .permanent).reading) :=
  (replay_deltas valid sound rfl implements
    (of.congr fun _ => Pattern.yields_first.symm)).2
    index (Nat.zero_le index) inside

theorem Implements.eventsBefore_length
    (implements : plan.Implements pattern catalog)
    (graph : Graph) :
    plan.eventsBefore graph pattern.relations.length = plan.events graph := by
  have all :
      plan.deltas.filter (·.relation < pattern.relations.length) =
        plan.deltas := by
    rw [List.filter_eq_self]
    intro delta member
    obtain ⟨start, among, started⟩ := exists_left_of_forall₂ implements member
    have inside := (Relation.bounds_of_mem_differences among).2
    simpa [started.relation] using inside
  rw [eventsBefore, all, events]

/-- The events of a standing plan lead to the rows of the merged graph. -/
theorem Implements.replay_events (implements : plan.Implements pattern catalog)
    (valid : pattern.Valid) (sound : graph.Sound) {copies : Copies}
    (of : copies.Of (pattern.Yields catalog graph fun _ => .permanent)) :
    ∃ later, copies.replay (plan.events graph) = some later ∧
      later.Of (pattern.Yields catalog graph fun _ => .merged) := by
  obtain ⟨later, replayed, ofLater⟩ :=
    implements.replay_eventsBefore valid sound of
      (Nat.le_refl pattern.relations.length)
  rw [implements.eventsBefore_length] at replayed
  exact ⟨later, replayed, ofLater.congr fun _ => Pattern.yields_last⟩

theorem Implements.prefix_eventsBefore
    (implements : plan.Implements pattern catalog)
    (graph : Graph)
    (index : Nat) :
    plan.eventsBefore graph index <+: plan.events graph := by
  obtain ⟨later, split⟩ := prefix_filter implements index
  refine ⟨later.flatMap (·.events graph), ?_⟩
  rw [eventsBefore, ← List.flatMap_append, split, events]

end StandingPlan

end DeltaGraph
