import DeltaGraph.Proofs.Execution.WellFormed

/-!
# The rows of a well-formed plan

The rows of a plan are those of the bindings that it enumerates.  Executing a
well-formed plan delivers them in order, whatever the receiver is, and fails
only if a delivery fails.
-/

namespace DeltaGraph

namespace Plan

/-- The rows of the bindings that a plan enumerates. -/
def rows (plan : Plan) (graph : Graph) : List Row :=
  (plan.enumeration graph.walkable).bindings.map fun binding =>
    plan.row binding.vertices binding.edges

/-- The events of the rows. -/
def events (plan : Plan) (graph : Graph) : List Event :=
  (plan.rows graph).map (Event.mk plan.rowKind)

namespace WellFormed

variable {plan : Plan} {graph : Graph}

/-- The columns of a well-formed plan show its bindings. -/
theorem row_injective
    (wellFormed : plan.WellFormed)
    {left right : Binding}
    (leftLength : left.vertices.length = plan.order.length)
    (rightLength : right.vertices.length = plan.order.length)
    (same : plan.row left.vertices left.edges =
      plan.row right.vertices right.edges) :
    left = right := by
  obtain ⟨leftVertices, edges⟩ := left
  obtain ⟨rightVertices, others⟩ := right
  simp only [row, Row.mk.injEq] at same leftLength rightLength
  obtain ⟨columns, rfl⟩ := same
  have shown (slots : List Nat)
      (inside : ∀ slot ∈ slots, slot < plan.order.length)
      (equal : slots.filterMap (leftVertices[·]?) =
        slots.filterMap (rightVertices[·]?)) :
      ∀ slot ∈ slots, leftVertices[slot]? = rightVertices[slot]? := by
    induction slots with
    | nil => exact fun _ member => by cases member
    | cons first rest inductionHypothesis =>
        have below := inside first (.head _)
        have bound : leftVertices[first]? = some leftVertices[first] :=
          List.getElem?_eq_getElem (by omega)
        have otherBound : rightVertices[first]? = some rightVertices[first] :=
          List.getElem?_eq_getElem (by omega)
        rw [List.filterMap_cons_some bound, List.filterMap_cons_some otherBound,
          List.cons.injEq] at equal
        intro slot member
        rcases List.mem_cons.mp member with rfl | later
        · rw [bound, otherBound, equal.1]
        · exact inductionHypothesis
            (fun other used => inside other (.tail _ used)) equal.2
            slot later
  have vertices : leftVertices = rightVertices := by
    refine List.ext_getElem? fun slot => ?_
    by_cases below : slot < plan.order.length
    · exact shown plan.columns wellFormed.columns columns slot
        (wellFormed.shown slot below)
    · rw [List.getElem?_eq_none (by omega), List.getElem?_eq_none (by omega)]
  rw [vertices]

theorem nodup_rows (wellFormed : plan.WellFormed) (sound : graph.Sound) :
    (plan.rows graph).Nodup := by
  have lists := wellFormed.lists_enumeration sound
  have complete (binding : Binding)
      (member : binding ∈ (plan.enumeration graph.walkable).bindings) :
      binding.vertices.length = plan.order.length := by
    rw [← wellFormed.types]
    exact ((lists.mem_iff binding).mp member).1.length_eq.symm
  refine lists.nodup.map_on fun left leftMember right rightMember same => ?_
  exact wellFormed.row_injective (complete left leftMember)
    (complete right rightMember) same

end WellFormed

end Plan

/-- An execution that delivers given events and fails only if a delivery
fails. -/
structure Job.Delivers
    {σ : Type}
    (job : Job σ)
    (events : List Event) : Prop where
  receiver (receiver : σ) (counters : Counters) :
    (job.execute receiver counters).2.1 = (job.deliver.all events receiver).2
  failure {receiver : σ} {error : Error} (counters : Counters)
      (fails : (job.deliver.all events receiver).1 = .error error) :
    (job.execute receiver counters).1 = .error error
  success {receiver : σ} (counters : Counters)
      (succeeds : (job.deliver.all events receiver).1 = .ok ()) :
    ∃ counts, (job.execute receiver counters).1 = .ok counts ∧
      counts.delivered = events.length

theorem Job.execute_outcome
    {σ : Type}
    (job : Job σ)
    (receiver : σ)
    (counters : Counters) :
    (job.execute receiver counters).1 =
      (job.run { receiver, counters }).1.map fun _ =>
        (job.run { receiver, counters }).2.rows := rfl

/-- An execution succeeds with the rows of a run that succeeds. -/
theorem Job.exists_run_of_execute
    {σ : Type}
    {job : Job σ}
    {receiver : σ}
    {counters : Counters}
    {rows : RowCounts}
    (succeeds : (job.execute receiver counters).1 = .ok rows) :
    ∃ progress, job.run { receiver, counters } = (.ok (), progress) ∧
      progress.rows = rows := by
  rw [execute_outcome] at succeeds
  cases ran : job.run { receiver, counters } with
  | mk outcome progress =>
      rw [ran] at succeeds
      cases outcome with
      | error error => cases succeeds
      | ok _ =>
          cases succeeds
          exact ⟨progress, rfl, rfl⟩

/-- Executing a well-formed plan delivers the events of its rows. -/
theorem Plan.WellFormed.delivers
    {plan : Plan}
    {graph : Graph}
    (wellFormed : plan.WellFormed)
    (sound : graph.Sound)
    {σ : Type}
    (deliver : Delivery σ) :
    (Job.mk plan graph.indexed deliver).Delivers (plan.events graph) := by
  let bindings := (plan.enumeration graph.walkable).bindings
  have enumerated : plan.enumeration graph.walkable = ⟨bindings, none⟩ := by
    rw [← (wellFormed.lists_enumeration sound).complete]
  rw [graph.indexed_eq_walkable]
  generalize same : Job.mk plan graph.walkable deliver = job
  have plays : job.Plays ⟨bindings, none⟩ job.run := by
    rw [← enumerated]
    subst same
    exact Job.plays_run _
  have events : plan.events graph = bindings.map plan.event := by
    simp [Plan.events, Plan.rows, enumerated, Plan.event]
  have played (receiver : σ) :
      job.play ⟨bindings, none⟩ receiver =
        job.deliver.all (plan.events graph) receiver := by
    subst same
    rw [events, Job.play, run_bind]
    cases deliver.all (bindings.map plan.event) receiver with
    | mk outcome later => cases outcome <;> rfl
  constructor
  case receiver =>
    intro receiver counters
    rw [← played]
    exact plays.receiver { receiver, counters }
  case failure =>
    intro receiver error counters fails
    have outcome := plays.outcome { receiver, counters }
    rw [played, fails] at outcome
    rw [Job.execute_outcome, outcome]
    rfl
  case success =>
    intro receiver counters succeeds
    have outcome := plays.outcome { receiver, counters }
    rw [played, succeeds] at outcome
    have delivered := plays.delivered { receiver, counters } outcome
    refine ⟨_, by rw [Job.execute_outcome, outcome]; rfl, ?_⟩
    rw [events, List.length_map]
    simpa using delivered

theorem run_all_collectEvent (events found : List Event) :
    Delivery.all collectEvent events found =
      (.ok (), events.reverse ++ found) := by
  induction events generalizing found with
  | nil => rfl
  | cons event rest inductionHypothesis =>
      have first : collectEvent event found = (.ok (), event :: found) := rfl
      rw [Delivery.all, run_bind_ok first, inductionHypothesis]
      simp

/-- Collecting the events of a well-formed plan succeeds. -/
theorem Plan.WellFormed.collectEvents_eq {plan : Plan} {graph : Graph}
    (wellFormed : plan.WellFormed) (sound : graph.Sound) (counters : Counters) :
    ∃ counts later,
      plan.collectEvents graph counters =
        (.ok counts, plan.events graph, later) ∧
      counts.delivered = (plan.events graph).length := by
  have delivers := wellFormed.delivers sound collectEvent
  have collected := run_all_collectEvent (plan.events graph) []
  obtain ⟨counts, outcome, delivered⟩ :=
    delivers.success counters (congrArg Prod.fst collected)
  have receiver := delivers.receiver [] counters
  rw [collected] at receiver
  refine ⟨counts,
    ((Job.mk plan graph.indexed collectEvent).execute [] counters).2.2, ?_,
    delivered⟩
  simp only [Plan.collectEvents, outcome, receiver]
  simp

end DeltaGraph
