import DeltaGraph.Proofs.Engine.Batch

/-!
# Subscriptions

Operations other than batches leave the graph as it is and only add names to the
catalog.  Subscribing adds a standing query with a plan that can be run and a
handle of its own, and unsubscribing removes it.
-/

namespace DeltaGraph

/-! ## Operations that leave the graph alone -/

namespace Services

/-- The graph stays as it is, and the catalog grows. -/
structure Grows (services later : Services) : Prop where
  graph : later.graph = services.graph
  catalog : services.catalog.Extends later.catalog

instance : IsPreorder Services Grows where
  refl services := ⟨rfl, .refl services.catalog⟩
  trans _ _ _ first second :=
    ⟨second.graph.trans first.graph, first.catalog.trans second.catalog⟩

end Services

namespace ServiceM

/-- An action of the catalog that extends it grows the services. -/
theorem grows_onCatalog
    {α : Type}
    {action : ExceptT Error (StateM Catalog) α}
    (grows : StepLeads Catalog.Extends action) :
    StepLeads Services.Grows (onCatalog action) :=
  fun services => ⟨rfl, grows services.catalog⟩

/-- An action of the outlets grows the services: it leaves the catalog alone. -/
theorem grows_onOutlets {α : Type} (action : ExceptT Error (StateM Outlets) α) :
    StepLeads Services.Grows (onOutlets action) :=
  fun services => ⟨rfl, .refl services.catalog⟩

theorem grows_share (sink : SinkId) : StepLeads Services.Grows (share sink) :=
  grows_onOutlets _

theorem grows_release (sinks : List SinkId) :
    StepLeads Services.Grows (release sinks) :=
  grows_onOutlets _

/-- Giving back shares of sinks always succeeds. -/
theorem run_release (sinks : List SinkId) (services : Services) :
    ∃ outlets, release sinks services = (.ok (), { services with outlets }) :=
  ⟨_, rfl⟩

theorem grows_collect (plan : Plan) : StepLeads Services.Grows (collect plan) :=
  fun services => ⟨rfl, .refl services.catalog⟩

end ServiceM

namespace Engine

/-- Answering a pattern grows the services: it may name types. -/
theorem grows_rows (pattern : Pattern) :
    StepLeads Services.Grows (rows pattern) := by
  refine StepLeads.bind
    (ServiceM.grows_onCatalog (Plan.leads_ofPattern pattern)) fun plan => ?_
  exact StepLeads.bind (ServiceM.grows_collect plan) fun _ services =>
    refl services

theorem grows_explain (query : Query) :
    StepLeads Services.Grows (explain query) := by
  cases query with
  | once pattern =>
      exact StepLeads.bind
        (ServiceM.grows_onCatalog (Plan.leads_ofPattern pattern))
        fun _ services => refl services
  | standing pattern destination =>
      exact StepLeads.bind
        (ServiceM.grows_onCatalog (StandingPlan.leads_ofPattern pattern))
        fun _ services => refl services
  | create edges => exact fun services => refl services
  | delete references => exact fun services => refl services

theorem grows_subscribeSink
    (engine : Engine)
    (pattern : Pattern)
    (sink : SinkId) :
    StepLeads Services.Grows (engine.subscribeSink pattern sink) :=
  StepLeads.bind
    (ServiceM.grows_onCatalog (StandingPlan.leads_ofPattern pattern)) fun _ =>
      StepLeads.bind (ServiceM.grows_share sink) fun _ services => refl services

/-- Finding the sink of a destination grows the services, also when it fails. -/
theorem grows_sinkOf (engine : Engine) (destination : Destination) :
    StepLeads Services.Grows (engine.sinkOf destination) := by
  cases destination with
  | file name => exact ServiceM.grows_onOutlets _
  | callback name =>
      rw [sinkOf]
      split
      · exact StepLeads.bind (ServiceM.grows_share _) fun _ services =>
          refl services
      · exact fun services => refl services

/-- Subscribing grows the services, also when it fails. -/
theorem grows_subscribe
    (engine : Engine)
    (pattern : Pattern)
    (destination : Destination) :
    StepLeads Services.Grows (engine.subscribe pattern destination) := by
  refine StepLeads.bind (engine.grows_sinkOf destination) fun sink => ?_
  refine StepLeads.bind ?_ fun _ => ?_
  · exact StepLeads.tryCatch (grows_subscribeSink engine pattern sink) fun _ =>
      StepLeads.bind (ServiceM.grows_release _) fun _ services => refl services
  · exact StepLeads.bind (ServiceM.grows_release _) fun _ services =>
      refl services

theorem grows_setCallback (engine : Engine) (name : String) (sink : SinkId) :
    StepLeads Services.Grows (engine.setCallback name sink) :=
  StepLeads.bind (ServiceM.grows_share sink) fun _ =>
    StepLeads.bind (ServiceM.grows_release _) fun _ services => refl services

/-- Dropping a query grows the services. -/
theorem grows_unsubscribe (engine : Engine) (handle : Handle) :
    StepLeads Services.Grows (engine.unsubscribe handle) :=
  StepLeads.bind (ServiceM.grows_release _) fun _ services => refl services

/-- A pattern with a fault has no rows. -/
theorem rows_of_fault
    {pattern : Pattern}
    {fault : PlanFault}
    (faulty : pattern.fault? = some fault)
    (services : Services) :
    rows pattern services = (.error (.plan fault), services) := by
  have planned : Plan.ofPattern pattern services.catalog =
      (.error (.plan fault), services.catalog) := by
    rw [Plan.ofPattern]
    exact run_bind_error
      (PlanContext.run_ofPattern_fault faulty services.catalog)
  refine run_bind_error ?_
  rw [ServiceM.onCatalog, planned]

/-- Asking for rows gives those of the plan. -/
theorem rows_eq_ok
    {pattern : Pattern}
    {services : Services}
    {plan : Plan}
    {catalog : Catalog}
    (sound : services.graph.Sound)
    (planned : Plan.ofPattern pattern services.catalog = (.ok plan, catalog))
    (wellFormed : plan.WellFormed) :
    ∃ counters, rows pattern services =
      (.ok (plan.rows services.graph),
        { services with catalog, counters }) := by
  have onCatalog : ServiceM.onCatalog (Plan.ofPattern pattern) services =
      (.ok plan, { services with catalog }) := by
    rw [ServiceM.onCatalog, planned]
  obtain ⟨counts, counters, collected, _⟩ :=
    wellFormed.collectEvents_eq sound services.counters
  have onGraph : ServiceM.collect plan { services with catalog } =
      (.ok (plan.events services.graph),
        { services with catalog, counters }) := by
    rw [ServiceM.collect, collected]
    rfl
  have shown :
      (plan.events services.graph).map Event.row =
        plan.rows services.graph := by
    simp [Plan.events, Function.comp_def]
  refine ⟨counters, ?_⟩
  rw [rows, run_bind_ok onCatalog, run_bind_ok onGraph, shown]
  rfl

/-! ## Standing queries -/

/-- The standing queries have plans that can be run and handles of their own. -/
structure Sound (engine : Engine) : Prop where
  planned : engine.Planned
  different : (engine.queries.map StandingQuery.handle).Nodup
  fresh : ∀ query ∈ engine.queries, query.handle < engine.freshHandle

/-- Only a pattern that breaks no rule gets a standing query. -/
theorem subscribeSink_ok
    {engine later : Engine}
    {pattern : Pattern}
    {sink : SinkId}
    {services after : Services}
    {handle : Handle}
    (run : engine.subscribeSink pattern sink services =
      (.ok (handle, later), after)) :
    pattern.fault? = none ∧ handle = engine.freshHandle ∧ services.Grows after ∧
      ∃ plan : StandingPlan, plan.Implements pattern after.catalog ∧
        later = { engine with
          queries := engine.queries ++ [⟨handle, plan, sink⟩]
          freshHandle := handle + 1 } := by
  have grows := grows_subscribeSink engine pattern sink services
  rw [run] at grows
  cases planning : StandingPlan.ofPattern pattern services.catalog with
  | mk outcome catalog =>
      have known :
          ServiceM.onCatalog (StandingPlan.ofPattern pattern) services =
            (outcome, { services with catalog }) := by
        rw [ServiceM.onCatalog, planning]
      cases outcome with
      | error error =>
          rw [subscribeSink, run_bind_error known] at run
          cases run
      | ok plan =>
          rw [subscribeSink, run_bind_ok known] at run
          cases run
          exact ⟨StandingPlan.fault?_of_ofPattern planning, rfl, grows, plan,
            StandingPlan.implements_of_ofPattern planning, rfl⟩

/-- A query that delivers to a destination delivers to a sink. -/
theorem subscribe_ok
    {engine later : Engine}
    {pattern : Pattern}
    {destination : Destination}
    {services after : Services}
    {handle : Handle}
    (run : engine.subscribe pattern destination services =
      (.ok (handle, later), after)) :
    ∃ sink middle planned,
      engine.subscribeSink pattern sink middle =
        (.ok (handle, later), planned) ∧
      after.catalog = planned.catalog := by
  obtain ⟨sink, opened, _, run⟩ := run_bind_eq_ok.mp run
  obtain ⟨subscribed, planned, subscribing, run⟩ := run_bind_eq_ok.mp run
  obtain ⟨outlets, released⟩ := ServiceM.run_release [sink] planned
  rw [run_bind_ok released] at run
  cases run
  cases planning : engine.subscribeSink pattern sink opened with
  | mk outcome reached =>
      cases outcome with
      | ok result =>
          rw [run_tryCatch_ok planning] at subscribing
          cases subscribing
          exact ⟨sink, opened, planned, planning, rfl⟩
      | error error =>
          obtain ⟨_, released⟩ := ServiceM.run_release [sink] reached
          rw [run_tryCatch_error planning, run_bind_ok released] at subscribing
          cases subscribing

/-- Naming a callback succeeds only into the engine with this callback
replaced. -/
theorem setCallback_ok
    {engine later : Engine}
    {name : String}
    {sink : SinkId}
    {services after : Services}
    {value : Unit}
    (run : engine.setCallback name sink services =
      (.ok (value, later), after)) :
    later = { engine with callbacks := engine.callbacks.insert name sink } := by
  obtain ⟨_, shared, _, run⟩ := run_bind_eq_ok.mp run
  obtain ⟨_, released, _, run⟩ := run_bind_eq_ok.mp run
  cases run
  rfl

/-- Dropping a query succeeds only into the engine without it. -/
theorem unsubscribe_ok
    {engine later : Engine}
    {handle : Handle}
    {services after : Services}
    {found : Bool}
    (run : engine.unsubscribe handle services = (.ok (found, later), after)) :
    later =
      { engine with
        queries := engine.queries.filter (·.handle ≠ handle) } := by
  unfold unsubscribe at run
  rw [List.partition_eq_filter_filter] at run
  obtain ⟨_, released, _, run⟩ := run_bind_eq_ok.mp run
  cases run
  congr 1
  exact List.filter_congr fun query _ => by simp

namespace Sound

/-- A new engine is sound. -/
theorem new (config : Config) : (Engine.new config).Sound where
  planned _ member := by cases member
  different := List.nodup_nil
  fresh _ member := by cases member

/-- An engine stays sound when a query subscribes to a sink. -/
theorem subscribeSink
    {engine later : Engine}
    (sound : engine.Sound)
    {pattern : Pattern}
    {sink : SinkId}
    {services after : Services}
    {handle : Handle}
    (run : engine.subscribeSink pattern sink services =
      (.ok (handle, later), after)) :
    later.Sound := by
  obtain ⟨_, rfl, _, plan, implements, rfl⟩ := subscribeSink_ok run
  constructor
  case planned =>
    intro query member delta among
    rcases List.mem_append.mp member with old | new
    · exact sound.planned query old delta among
    · rw [List.mem_singleton.mp new] at among
      obtain ⟨_, _, started⟩ := exists_left_of_forall₂ implements among
      exact started.plan.wellFormed
  case different =>
    rw [List.map_append, List.map_singleton, List.nodup_append]
    refine ⟨sound.different, List.nodup_singleton _,
      fun old member new added same => ?_⟩
    obtain ⟨query, among, rfl⟩ := List.mem_map.mp member
    have below := sound.fresh query among
    have fresh : new = engine.freshHandle := List.mem_singleton.mp added
    rw [same, fresh] at below
    exact Nat.lt_irrefl _ below
  case fresh =>
    intro query member
    rcases List.mem_append.mp member with old | new
    · exact Nat.lt_succ_of_lt (sound.fresh query old)
    · rw [List.mem_singleton.mp new]
      exact Nat.lt_succ_self _

/-- An engine stays sound when a query is dropped. -/
theorem unsubscribe {engine : Engine} (sound : engine.Sound) (handle : Handle) :
    Sound { engine with
      queries := engine.queries.filter (·.handle ≠ handle) } where
  planned query member := sound.planned query (List.mem_of_mem_filter member)
  different := sound.different.sublist (List.filter_sublist.map _)
  fresh query member := sound.fresh query (List.mem_of_mem_filter member)

end Sound

end Engine

end DeltaGraph
