import DeltaGraph.Engine
import DeltaGraph.Proofs.Maintenance.Stream
import DeltaGraph.Proofs.Sink

/-!
# What standing queries send

Running the standing queries of an engine on a graph gives the events of their
delta plans to their sinks, and counts the rows that enter and leave.  It fails
only because of a sink, and touches neither the graph nor the catalog.
-/

namespace DeltaGraph

/-- The numbers of rows that enter and leave with events. -/
def tally (events : List Event) : Nat × Nat :=
  (events.countP (·.kind = .emerged), events.countP (·.kind = .deleted))

/-- Events one after the other are counted by sums. -/
theorem tally_append (events more : List Event) :
    tally (events ++ more) =
      ((tally events).1 + (tally more).1,
        (tally events).2 + (tally more).2) := by
  simp [tally]

/-- The events of a standing query on a graph with a pending batch. -/
def StandingQuery.events (query : StandingQuery) (graph : Graph) : List Event :=
  query.plan.events graph

namespace Engine

/-- Adding counts up from a start adds their totals to it. -/
theorem foldl_totals (counts : List (Nat × Nat)) (start : Nat × Nat) :
    counts.foldl
      (fun (emerged, deleted) (more, fewer) =>
        (emerged + more, deleted + fewer)) start =
      (start.1 + (totals counts).1, start.2 + (totals counts).2) := by
  induction counts generalizing start with
  | nil => rfl
  | cons first rest inductionHypothesis =>
      rw [totals, List.foldl_cons, List.foldl_cons, inductionHypothesis,
        inductionHypothesis]
      simp [Nat.add_assoc]

theorem totals_cons (first : Nat × Nat) (rest : List (Nat × Nat)) :
    totals (first :: rest) =
      (first.1 + (totals rest).1, first.2 + (totals rest).2) := by
  rw [totals, List.foldl_cons, foldl_totals]
  simp

/-- The sums of the numbers of rows are the numbers of rows of all events. -/
theorem totals_tally {α : Type} (items : List α) (events : α → List Event) :
    totals (items.map fun item => tally (events item)) =
      tally (items.flatMap events) := by
  induction items with
  | nil => rfl
  | cons first rest inductionHypothesis =>
      rw [List.map_cons, totals_cons, inductionHypothesis, List.flatMap_cons,
        tally_append]

end Engine

/-- The step gives events to sinks and comes to a value, unless it fails because
of a sink that is not trusted.  The graph and the catalog stay as they are. -/
def ServiceM.Sends
    {α : Type}
    (trusted : SinkId → Prop)
    (step : ServiceM α)
    (value : α)
    (given : SinkId → List Event) : Prop :=
  ∀ services, ∃ outlets counters,
    (services.outlets.Trusts trusted → outlets.Trusts trusted) ∧
    ((step services = (.ok value, { services with outlets, counters }) ∧
        services.outlets.Receives outlets given) ∨
      ∃ error,
        step services = (.error error, { services with outlets, counters }) ∧
        error.isOfSink = true ∧ ¬ services.outlets.Trusts trusted)

namespace ServiceM

variable {α β : Type} {trusted : SinkId → Prop}

/-- A step that does nothing sends nothing. -/
theorem sends_pure (value : α) : Sends trusted (pure value) value fun _ => [] :=
  fun services => ⟨services.outlets, services.counters, fun trusts => trusts,
    .inl ⟨rfl, .refl _⟩⟩

theorem Sends.congr
    {step : ServiceM α}
    {value : α}
    {given another : SinkId → List Event}
    (sends : Sends trusted step value given)
    (same : ∀ id, given id = another id) :
    Sends trusted step value another := by
  have equal : given = another := funext same
  rwa [← equal]

/-- A step sends what its first part does, then what its second part does. -/
theorem Sends.bind
    {step : ServiceM α}
    {next : α → ServiceM β}
    {value : α}
    {other : β}
    {given more : SinkId → List Event}
    (first : Sends trusted step value given)
    (second : Sends trusted (next value) other more) :
    Sends trusted (step >>= next) other fun id => given id ++ more id := by
  intro services
  obtain ⟨outlets, counters, keeps,
      ⟨run, received⟩ | ⟨error, run, ofSink, distrusted⟩⟩ :=
    first services
  · obtain ⟨final, finalCounters, keepsMore, ⟨runNext, receivedMore⟩ |
        ⟨error, runNext, ofSink, distrusted⟩⟩ :=
        second { services with outlets, counters }
    · exact ⟨final, finalCounters, keepsMore ∘ keeps,
        .inl ⟨(run_bind_ok run).trans runNext, received.trans receivedMore⟩⟩
    · exact ⟨final, finalCounters, keepsMore ∘ keeps,
        .inr ⟨error, (run_bind_ok run).trans runNext, ofSink,
          distrusted ∘ keeps⟩⟩
  · exact ⟨outlets, counters, keeps,
      .inr ⟨error, run_bind_error run, ofSink, distrusted⟩⟩

/-- A traversal sends what its steps do, in the order of its items. -/
theorem Sends.mapM
    {items : List α}
    {step : α → ServiceM β}
    {value : α → β}
    {given : α → SinkId → List Event}
    (each : ∀ item ∈ items,
      Sends trusted (step item) (value item) (given item)) :
    Sends trusted (items.mapM step) (items.map value) fun id =>
      items.flatMap (given · id) := by
  induction items with
  | nil => exact sends_pure []
  | cons first rest inductionHypothesis =>
      have others :=
        inductionHypothesis fun item member => each item (.tail _ member)
      rw [List.mapM_cons]
      refine Sends.congr
        (Sends.bind (each first (.head _))
          (Sends.bind others (sends_pure _))) ?_
      intro id
      rw [List.flatMap_cons, List.append_nil]

theorem run_onOutlets
    {action : ExceptT Error (StateM Outlets) α}
    {services : Services}
    {outcome : Except Error α}
    {outlets : Outlets}
    (run : action services.outlets = (outcome, outlets)) :
    onOutlets action services = (outcome, { services with outlets }) := by
  rw [onOutlets, run]

/-- An action of the outlets that gives its events without failing sends
them. -/
theorem sends_onOutlets {action : ExceptT Error (StateM Outlets) Unit}
    {given : SinkId → List Event} (gives : Outlets.Gives trusted action given) :
    Sends trusted (onOutlets action) () given := by
  intro services
  obtain ⟨later, keeps, ⟨run, received⟩ | ⟨error, run, fails⟩⟩ :=
    gives services.outlets
  · exact ⟨later, services.counters, keeps, .inl ⟨run_onOutlets run, received⟩⟩
  · exact ⟨later, services.counters, keeps,
      .inr ⟨error, run_onOutlets run, fails⟩⟩

end ServiceM

namespace Engine

open ServiceM

variable {graph : Graph} {trusted : SinkId → Prop}

/-- The events of a delta plan all count on the side of its row kind. -/
theorem tally_events (plan : Plan) (graph : Graph) :
    tally (plan.events graph) =
      match plan.rowKind with
      | .emerged => ((plan.events graph).length, 0)
      | .deleted => (0, (plan.events graph).length)
      | .matched => (0, 0) := by
  unfold tally Plan.events
  cases plan.rowKind <;> simp [Function.comp_def]

/-- A delta plan that reads a sound graph sends its events to its sink and
counts them. -/
theorem sends_runDelta
    (sound : graph.Sound)
    {sink : SinkId}
    (isTrusted : trusted sink)
    {delta : DeltaPlan}
    (wellFormed : delta.plan.WellFormed) :
    Sends trusted (runDelta graph.indexed sink delta)
      (tally (delta.events graph))
      (Outlets.only sink (delta.events graph)) := by
  rw [wellFormed.events_eq sound, tally_events]
  intro services
  have delivers := wellFormed.delivers sound (Outlets.append sink)
  let job := Job.mk delta.plan graph.indexed (Outlets.append sink)
  let finished := job.execute services.outlets services.counters
  have run : execute delta.plan graph.indexed (Outlets.append sink) services =
      (finished.1,
        { services with outlets := finished.2.1, counters := finished.2.2 }) :=
        rfl
  have reached : finished.2.1 = _ :=
    delivers.receiver services.outlets services.counters
  refine ⟨finished.2.1, finished.2.2, ?_⟩
  obtain ⟨later, keeps, ⟨sent, received⟩ | ⟨error, sent, whose⟩⟩ :=
    Outlets.gives_all isTrusted (delta.plan.events graph) services.outlets
  · rw [sent] at reached
    obtain ⟨counts, outcome, delivered⟩ :=
      delivers.success services.counters (congrArg Prod.fst sent)
    have succeeds : finished.1 = .ok counts := outcome
    rw [succeeds] at run
    refine ⟨reached ▸ keeps, .inl ⟨?_, reached ▸ received⟩⟩
    rw [runDelta, run_bind_ok run, ← delivered]
    rfl
  · rw [sent] at reached
    have fails : finished.1 = .error error :=
      delivers.failure services.counters (congrArg Prod.fst sent)
    rw [fails] at run
    exact ⟨reached ▸ keeps, .inr ⟨error, run_bind_error run, whose⟩⟩

theorem flatMap_only
    (sink : SinkId)
    {α : Type}
    (items : List α)
    (events : α → List Event) :
    (fun id => items.flatMap fun item => Outlets.only sink (events item) id) =
      Outlets.only sink (items.flatMap events) := by
  funext id
  unfold Outlets.only
  split <;> simp

/-- A query sends the events of its delta plans to its own sink, in their order,
and counts them. -/
theorem sends_runQuery
    (engine : Engine)
    (sound : graph.Sound)
    {query : StandingQuery}
    (isTrusted : trusted query.sink)
    (wellFormed : ∀ delta ∈ query.plan.deltas, delta.plan.WellFormed) :
    Sends trusted (engine.runQuery graph.indexed query)
      (tally (query.events graph))
      (Outlets.only query.sink (query.events graph)) := by
  have counts := Sends.mapM fun delta member =>
    sends_runDelta sound isTrusted (wellFormed delta member)
  rw [flatMap_only] at counts
  have total :
      totals (query.plan.deltas.map fun delta => tally (delta.events graph)) =
        tally (query.events graph) :=
          totals_tally query.plan.deltas (·.events graph)
  rw [← total]
  unfold runQuery
  have flush := sends_onOutlets (Outlets.gives_flush isTrusted)
  split
  · refine Sends.congr (Sends.bind counts (Sends.bind flush (sends_pure _)))
      fun id => ?_
    rw [List.append_nil, List.append_nil]
    rfl
  · refine Sends.congr (Sends.bind counts (sends_pure _)) fun id => ?_
    rw [List.append_nil]
    rfl

/-- The events that the standing queries send to a sink. -/
def eventsFor (engine : Engine) (graph : Graph) (sink : SinkId) : List Event :=
  (engine.queries.filter (·.sink = sink)).flatMap (·.events graph)

/-- The standing queries send their events to their sinks. -/
theorem sends_queries
    (engine : Engine)
    (sound : graph.Sound)
    (allTrusted : ∀ query ∈ engine.queries, trusted query.sink)
    (planned : ∀ query ∈ engine.queries, ∀ delta ∈ query.plan.deltas,
      delta.plan.WellFormed) :
    Sends trusted (engine.queries.mapM (engine.runQuery graph.indexed))
      (engine.queries.map fun query => tally (query.events graph))
      (engine.eventsFor graph) := by
  refine Sends.congr (Sends.mapM fun query member =>
    engine.sends_runQuery sound (allTrusted query member)
      (planned query member)) fun id => ?_
  unfold eventsFor
  generalize engine.queries = queries
  induction queries with
  | nil => rfl
  | cons first rest inductionHypothesis =>
      rw [List.flatMap_cons, inductionHypothesis, Outlets.only,
        List.filter_cons]
      by_cases same : first.sink = id
      · simp [same]
      · simp [same, Ne.symm same]

end Engine

end DeltaGraph
