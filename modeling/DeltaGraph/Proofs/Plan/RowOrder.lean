import DeltaGraph.Proofs.Execution.Supply
import DeltaGraph.Proofs.Plan.OfPattern

/-!
# The order of the rows

An execution that succeeds hands its tuples to the sink in ascending order: of
the vertices in the order of the plan, and for the same vertices of the types of
the edges in the order of the relations.  So no tuple is handed on twice, and
since the plans of patterns show every slot, neither is a row.
-/

namespace DeltaGraph

/-- What a relation is resolved to are edges that it finds. -/
theorem EdgeLookup.finds_of_resolve
    {lookup : EdgeLookup}
    {graph : Graph}
    {vertices : List VertexId}
    {edges : List EdgeId}
    (resolved : lookup.resolve graph.walkable vertices = .ok edges)
    {edge : EdgeId}
    (member : edge ∈ edges) :
    lookup.Finds graph vertices edge := by
  obtain ⟨start, stop, source, target, rfl⟩ := exists_of_resolve resolved
  exact ⟨start, stop, source, target, member⟩

namespace Plan

variable {graph : Graph} {plan : Plan}

theorem resolves_of_mem_resolved {vertices : List VertexId} {binding : Binding}
    (member : binding ∈ (plan.resolved graph.walkable vertices).bindings) :
    plan.Resolves graph binding := by
  obtain ⟨choices, resolved, inside⟩ := Enumeration.mem_given member
  obtain ⟨edges, chosen, rfl, passes⟩ := mem_chosen.mp inside
  refine ⟨?_, passes⟩
  have lists := forall₂_of_mapM_ok resolved
  clear resolved inside passes member
  rw [List.nil_append]
  generalize plan.lookups = lookups at lists ⊢
  induction lists generalizing edges with
  | nil =>
      cases chosen
      exact .nil
  | cons found _ inductionHypothesis =>
      cases chosen with
      | cons inList later =>
          exact .cons (EdgeLookup.finds_of_resolve found inList)
            (inductionHypothesis _ later)

theorem complete_of_mem_extended
    {stages : List (Stage × Option TypeId)}
    {bound : List VertexId}
    {binding : Binding}
    (member : binding ∈ (plan.extended graph.walkable stages bound).bindings) :
    binding.vertices.length = bound.length + stages.length ∧
      plan.Resolves graph binding := by
  induction stages generalizing bound with
  | nil =>
      exact ⟨congrArg _ (vertices_of_mem_resolved member),
        resolves_of_mem_resolved member⟩
  | cons first rest inductionHypothesis =>
      obtain ⟨candidates, _, inside⟩ := Enumeration.mem_given member
      obtain ⟨vertex, _, deeper⟩ := Enumeration.mem_each inside
      obtain ⟨length, resolves⟩ := inductionHypothesis deeper
      refine ⟨?_, resolves⟩
      rw [length, List.length_append, List.length_singleton, List.length_cons]
      omega

/-- What a plan enumerates binds every slot to a vertex, and every relation to
an edge that it finds. -/
theorem complete_of_mem_enumeration {binding : Binding}
    (member : binding ∈ (plan.enumeration graph.walkable).bindings) :
    binding.vertices.length = plan.order.length ∧
      plan.Resolves graph binding := by
  unfold enumeration at member
  cases shaped : plan.shapeViolation? with
  | some violation =>
      rw [shaped] at member
      cases member
  | none =>
      obtain ⟨several, stageCount, typeCount, _, _⟩ := Plan.shape_of_none shaped
      rw [shaped] at member
      simp only at member
      split at member
      · rename_i first others rest sourceType targetType types stages typed
        obtain ⟨source, _, fromSource⟩ := Enumeration.mem_each member
        obtain ⟨candidates, _, inside⟩ := Enumeration.mem_given fromSource
        obtain ⟨target, _, deeper⟩ := Enumeration.mem_each inside
        obtain ⟨length, resolves⟩ := complete_of_mem_extended deeper
        refine ⟨?_, resolves⟩
        rw [stages, List.length_cons] at stageCount
        rw [typed, List.length_cons, List.length_cons] at typeCount
        rw [length, List.length_cons, List.length_cons, List.length_nil,
          List.length_zip]
        omega
      · cases member

/-- A plan that is made from a pattern: the one for its rows, or one of those
for the changes of its rows. -/
inductive MadeFrom (plan : Plan) (pattern : Pattern) : Prop
  | once {catalog later : Catalog}
      (planned : Plan.ofPattern pattern catalog = (.ok plan, later)) :
        MadeFrom plan pattern
  | standing {standing : StandingPlan} {delta : DeltaPlan}
      {catalog later : Catalog}
      (planned : StandingPlan.ofPattern pattern catalog = (.ok standing, later))
      (member : delta ∈ standing.deltas) (same : delta.plan = plan) :
        MadeFrom plan pattern

theorem MadeFrom.wellFormed {pattern : Pattern} (made : plan.MadeFrom pattern) :
    plan.WellFormed := by
  cases made with
  | @once catalog later planned =>
      cases fault : pattern.fault? with
      | some found =>
          have stopped := PlanContext.run_ofPattern_fault fault catalog
          rw [Plan.ofPattern, run_bind_error stopped] at planned
          cases planned
      | none =>
          obtain ⟨_, _, again, _, implements, _⟩ :=
            Plan.run_ofPattern fault catalog
          cases planned.symm.trans again
          exact implements.wellFormed
  | standing planned member same =>
      have implements := StandingPlan.implements_of_ofPattern planned
      obtain ⟨start, _, starts⟩ := exists_left_of_forall₂ implements member
      exact same ▸ starts.plan.wellFormed

/-- An execution that succeeds hands on one list of tuples.  They are complete
and in strictly ascending order, so none is handed on twice.  No row of a plan
that is made from a pattern is appended twice. -/
theorem hands_on_in_order
    {graph : Graph}
    (reachable : graph.Reachable)
    (plan : Plan)
    {σ : Type}
    (deliver : Delivery σ)
    {start final : Progress σ}
    (succeeds : (Job.mk plan graph.indexed deliver).pull start =
      (.ok (), final)) :
    ∃ tuples, (Job.mk plan graph.indexed deliver).HandsOn start tuples final ∧
      (∀ others last,
        (Job.mk plan graph.indexed deliver).HandsOn start others last →
        others = tuples) ∧
      (∀ tuple ∈ tuples, tuple.vertices.length = plan.order.length ∧
        plan.Resolves graph tuple ∧
        plan.outputRow tuple = .ok (plan.row tuple.vertices tuple.edges)) ∧
      tuples.Pairwise (Binding.Precedes graph) ∧ tuples.Nodup ∧
      ∀ pattern, plan.MadeFrom pattern →
        (tuples.map fun tuple =>
          plan.row tuple.vertices tuple.edges).Nodup := by
  rw [graph.indexed_eq_walkable] at succeeds ⊢
  have sound := reachable.sound
  have ascending := plan.pairwise_enumeration sound
  have handsOn := Job.handsOn_of_pull succeeds
  refine ⟨_, handsOn, handsOn.pull_eq.2, fun tuple member => ?_, ascending, ?_,
    fun pattern made => ?_⟩
  · obtain ⟨length, resolves⟩ := complete_of_mem_enumeration member
    refine ⟨length, resolves, Job.outputRow_eq plan ?_⟩
    cases handsOn with
    | drains shaped =>
        obtain ⟨_, _, _, _, inside⟩ := Plan.shape_of_none shaped
        rw [length]
        exact inside
  · refine ascending.imp fun {left right} before same => ?_
    exact Std.Irrefl.irrefl (r := Binding.Precedes graph) left (same ▸ before)
  · exact made.wellFormed.nodup_rows sound

/-- Two relations with the same ends, on a graph with parallel edges. -/
theorem hands_on_in_order_for_parallel_edges :
    let graph := (((Graph.empty.stage (.addEdge ⟨⟨1⟩, ⟨2⟩, ⟨2⟩⟩ [])).stage
      (.addEdge ⟨⟨1⟩, ⟨2⟩, ⟨1⟩⟩ [])).stage
      (.addEdge ⟨⟨1⟩, ⟨3⟩, ⟨2⟩⟩ [])).commit.2
    let pattern : Pattern :=
      { declared := [⟨"a", none⟩, ⟨"b", none⟩]
        relations := [⟨"a", "b", none, none⟩, ⟨"a", "b", none, some "s"⟩] }
    let plan : Plan :=
      { order := ["a", "b"]
        types := [none, none]
        stages :=
          [[⟨0, .forward, .permanent, none⟩, ⟨0, .forward, .permanent, none⟩]]
        lookups :=
          [⟨"0_anon_rel", 0, 1, none, .permanent⟩,
            ⟨"s", 0, 1, none, .permanent⟩]
        conditions := []
        columns := [0, 1] }
    let job : Job (List Event) := ⟨plan, graph.indexed, collectEvent⟩
    let start : Progress (List Event) := { receiver := [] }
    plan.MadeFrom pattern ∧ (job.pull start).1 = .ok () ∧
      (job.pull start).2.rows.delivered = 5 ∧
      ∃ tuples, job.HandsOn start tuples (job.pull start).2 ∧
        tuples.Pairwise (Binding.Precedes graph) ∧ tuples.Nodup ∧
        (tuples.map fun tuple =>
          plan.row tuple.vertices tuple.edges).Nodup := by
  intro graph pattern plan job start
  have reachable : graph.Reachable :=
    .commit (.stage _ (.stage _ (.stage _ .empty)))
  have planned : (Plan.ofPattern pattern {}).1 = .ok plan := by decide +kernel
  have made : plan.MadeFrom pattern := by
    generalize run : Plan.ofPattern pattern {} = outcome at planned
    obtain ⟨_, later⟩ := outcome
    cases planned
    exact .once run
  have succeeds : (job.pull start).1 = .ok () := by
    rw [job.pull_eq_run]
    decide +kernel
  have delivered : (job.pull start).2.rows.delivered = 5 := by
    rw [job.pull_eq_run]
    decide +kernel
  have ends : job.pull start = (.ok (), (job.pull start).2) := by
    rw [← succeeds, Prod.mk.eta]
  obtain ⟨tuples, handsOn, _, _, ascending, different, rows⟩ :=
    hands_on_in_order reachable plan collectEvent ends
  exact ⟨made, succeeds, delivered, tuples, handsOn, ascending, different,
    rows pattern made⟩

end Plan

end DeltaGraph
