import DeltaGraph.Proofs.Engine.Subscription

/-!
# Sessions

A session is an engine with the services that it works on.  Calls of the engine
change both, and others who share the services change the sinks, the catalog and
the graph.  Throughout a session the graph is sound, the catalog grows, and a
standing query stays what it is until it is unsubscribed.
-/

namespace DeltaGraph

/-- An engine with the services that it works on. -/
structure Session where
  engine : Engine
  services : Services := {}

/-- What can happen to an engine and its services. -/
inductive Call
  | apply (changes : List Change)
  | rows (pattern : Pattern)
  | explain (query : Query)
  | subscribeSink (pattern : Pattern) (sink : SinkId)
  | subscribe (pattern : Pattern) (destination : Destination)
  | unsubscribe (handle : Handle)
  | setCallback (name : String) (sink : SinkId)
  /-- Sinks are added, emptied, or used by others. -/
  | useSinks (update : Outlets → Outlets)
  /-- Others intern the name of a type. -/
  | internType (name : String)
  /-- Others intern a key. -/
  | internProperty (key : String)
  /-- Others stage a step of a batch. -/
  | stage (step : BatchStep)
  /-- Others commit the batch. -/
  | commit
  /-- Others roll the batch back. -/
  | rollback

/-- A sink is added. -/
def Call.addSink (sink : Sink) : Call :=
  .useSinks fun outlets => (Outlets.add sink outlets).2

namespace Session

/-- A session at its start. -/
def start (config : Config) : Session := ⟨.new config, {}⟩

/-- The session after an operation that gives the engine, unless it fails. -/
def perform
    {α : Type}
    (session : Session)
    (action : ServiceM (α × Engine)) : Session :=
  match action session.services with
  | (.ok (_, engine), services) => ⟨engine, services⟩
  | (.error _, services) => { session with services }

/-- The session after an operation that leaves the engine as it is. -/
def observe {α : Type} (session : Session) (action : ServiceM α) : Session :=
  { session with services := (action session.services).2 }

/-- The session after a call. -/
def call (session : Session) : Call → Session
  | .apply changes => session.observe (session.engine.apply changes)
  | .rows pattern => session.observe (Engine.rows pattern)
  | .explain query => session.observe (Engine.explain query)
  | .subscribeSink pattern sink =>
      session.perform (session.engine.subscribeSink pattern sink)
  | .subscribe pattern destination =>
      session.perform (session.engine.subscribe pattern destination)
  | .unsubscribe handle => session.perform (session.engine.unsubscribe handle)
  | .setCallback name sink =>
      session.perform (session.engine.setCallback name sink)
  | .useSinks update =>
      { session with
        services :=
          { session.services with outlets := update session.services.outlets } }
  | .internType name =>
      session.observe
        (ServiceM.onCatalog (liftM (Catalog.internType? (some name))))
  | .internProperty key =>
      session.observe (ServiceM.onCatalog (liftM (Catalog.internProperty key)))
  | .stage step =>
      { session with
        services :=
          { session.services with graph := session.services.graph.stage step } }
  | .commit =>
      { session with
        services :=
          { session.services with graph := session.services.graph.commit.2 } }
  | .rollback =>
      { session with
        services :=
          { session.services with graph := session.services.graph.rollback.2 } }

/-- The session after calls, one after another. -/
def run (session : Session) (calls : List Call) : Session :=
  calls.foldl call session

end Session

/-- The pattern that a call asks to maintain, if it is a registration. -/
def Call.pattern? : Call → Option Pattern
  | .subscribeSink pattern _ => some pattern
  | .subscribe pattern _ => some pattern
  | _ => none

/-- Whether a call may change the graph. -/
def Call.touchesGraph : Call → Bool
  | .apply _ => true
  | .stage _ => true
  | .commit => true
  | .rollback => true
  | _ => false

namespace Session

/-- A call either succeeds into a new engine, or fails and leaves the engine as
it was. -/
theorem perform_cases
    {α : Type}
    (session : Session)
    (action : ServiceM (α × Engine)) :
    (∃ value engine services,
      action session.services = (.ok (value, engine), services) ∧
      session.perform action = ⟨engine, services⟩) ∨
    ∃ error services, action session.services = (.error error, services) ∧
      session.perform action = { session with services } := by
  unfold perform
  cases run : action session.services with
  | mk outcome services =>
      cases outcome with
      | ok result => exact .inl ⟨result.1, result.2, services, rfl, rfl⟩
      | error error => exact .inr ⟨error, services, rfl, rfl⟩

theorem services_perform
    {α : Type}
    (session : Session)
    (action : ServiceM (α × Engine)) :
    (session.perform action).services = (action session.services).2 := by
  obtain ⟨_, _, _, run, performed⟩ | ⟨_, _, run, performed⟩ :=
    session.perform_cases action
  · rw [performed, run]
  · rw [performed, run]

/-- The engine has a property after an operation that keeps it whenever it gives
an engine. -/
theorem engine_perform
    {α : Type}
    (property : Engine → Prop)
    {session : Session}
    {action : ServiceM (α × Engine)}
    (before : property session.engine)
    (kept : ∀ value engine services,
      action session.services = (.ok (value, engine), services) →
        property engine) :
    property (session.perform action).engine := by
  obtain ⟨value, engine, services, run, performed⟩ | ⟨_, _, _, performed⟩ :=
    session.perform_cases action
  · rw [performed]
    exact kept value engine services run
  · rw [performed]
    exact before

/-- A call that does not touch the graph leaves it as it is. -/
theorem grows_call
    (session : Session)
    {call : Call}
    (untouched : call.touchesGraph = false) :
    session.services.Grows (session.call call).services := by
  cases call with
  | rows pattern => exact Engine.grows_rows pattern session.services
  | explain query => exact Engine.grows_explain query session.services
  | subscribeSink pattern sink =>
      rw [Session.call, services_perform]
      exact session.engine.grows_subscribeSink pattern sink session.services
  | subscribe pattern destination =>
      rw [Session.call, services_perform]
      exact session.engine.grows_subscribe pattern destination session.services
  | unsubscribe handle =>
      rw [Session.call, services_perform]
      exact session.engine.grows_unsubscribe handle session.services
  | setCallback name sink =>
      rw [Session.call, services_perform]
      exact session.engine.grows_setCallback name sink session.services
  | useSinks update => exact ⟨rfl, .refl _⟩
  | internType name => exact ⟨rfl, (Catalog.internType?_spec (some name) _).1⟩
  | internProperty key => exact ⟨rfl, (Catalog.internProperty_spec key _).1⟩
  | apply changes => cases untouched
  | stage step => cases untouched
  | commit => cases untouched
  | rollback => cases untouched

/-- The graph of the session and its standing queries are sound. -/
structure Sound (session : Session) : Prop where
  graph : session.services.graph.Sound
  engine : session.engine.Sound

theorem sound_start (config : Config) : (start config).Sound :=
  ⟨Graph.Sound.empty, .new config⟩

/-- A batch ends after some of its steps, and leaves the engine as it is. -/
theorem Sound.apply_steps
    {session : Session}
    (sound : session.Sound)
    (changes : List Change) :
    ∃ outcome services,
      session.engine.apply changes session.services = (outcome, services) ∧
      session.call (.apply changes) = ⟨session.engine, services⟩ ∧
      session.engine.Ends changes session.services outcome services :=
  ⟨_, _, rfl, rfl, Engine.ends sound.engine.planned changes sound.graph⟩

/-- A batch ends in one of the four ways, and leaves the engine as it is. -/
theorem Sound.apply_ends
    {session : Session}
    (sound : session.Sound)
    (changes : List Change) :
    ∃ outcome services,
      session.engine.apply changes session.services = (outcome, services) ∧
      session.call (.apply changes) = ⟨session.engine, services⟩ ∧
      session.engine.Applies changes session.services outcome services :=
  ⟨_, _, rfl, rfl, Engine.applies sound.engine.planned changes sound.graph⟩

/-- The catalog grows with every call. -/
theorem Sound.extends_call
    {session : Session}
    (sound : session.Sound)
    (call : Call) :
    session.services.catalog.Extends (session.call call).services.catalog := by
  by_cases untouched : call.touchesGraph = false
  · exact (session.grows_call untouched).catalog
  · cases call with
    | apply changes =>
        obtain ⟨outcome, later, _, called, ends⟩ := sound.apply_ends changes
        rw [called]
        cases ends <;> assumption
    | stage step => exact .refl _
    | commit => exact .refl _
    | rollback => exact .refl _
    | _ => exact absurd rfl untouched

theorem Sound.graph_call
    {session : Session}
    (sound : session.Sound)
    (call : Call) :
    (session.call call).services.graph.Sound := by
  by_cases untouched : call.touchesGraph = false
  · rw [(session.grows_call untouched).graph]
    exact sound.graph
  · cases call with
    | apply changes =>
        obtain ⟨outcome, later, _, called, ends⟩ := sound.apply_ends changes
        rw [called]
        cases ends with
        | unresolved => exact sound.graph
        | refused error catalog steps =>
            exact (sound.graph.stageAll steps).rollback
        | unsent error catalog steps =>
            exact (sound.graph.stageAll steps).rollback
        | committed report catalog steps =>
            exact (sound.graph.stageAll steps).commit
    | stage step => exact sound.graph.stage step
    | commit => exact sound.graph.commit
    | rollback => exact sound.graph.rollback
    | _ => exact absurd rfl untouched

theorem Sound.engine_call
    {session : Session}
    (sound : session.Sound)
    (call : Call) :
    (session.call call).engine.Sound := by
  cases call with
  | subscribeSink pattern sink =>
      apply engine_perform Engine.Sound sound.engine
      intro handle engine services run
      exact sound.engine.subscribeSink run
  | subscribe pattern destination =>
      apply engine_perform Engine.Sound sound.engine
      intro handle engine services run
      obtain ⟨sink, middle, planned, subscribed, _⟩ := Engine.subscribe_ok run
      exact sound.engine.subscribeSink subscribed
  | unsubscribe handle =>
      apply engine_perform Engine.Sound sound.engine
      intro found engine services run
      rw [Engine.unsubscribe_ok run]
      exact sound.engine.unsubscribe handle
  | setCallback name sink =>
      apply engine_perform Engine.Sound sound.engine
      intro _ engine services run
      rw [Engine.setCallback_ok run]
      exact ⟨sound.engine.planned, sound.engine.different, sound.engine.fresh⟩
  | _ => exact sound.engine

/-- A session stays sound through a call. -/
theorem Sound.call {session : Session} (sound : session.Sound) (call : Call) :
    (session.call call).Sound :=
  ⟨sound.graph_call call, sound.engine_call call⟩

/-- A session stays sound through a run of calls. -/
theorem Sound.run
    {session : Session}
    (sound : session.Sound)
    (calls : List Call) :
    (session.run calls).Sound := by
  induction calls generalizing session with
  | nil => exact sound
  | cons call rest inductionHypothesis =>
      exact inductionHypothesis (sound.call call)

/-- A standing query stays until it is unsubscribed. -/
theorem mem_queries_call
    {session : Session}
    {query : StandingQuery}
    (member : query ∈ session.engine.queries)
    {call : Call}
    (kept : call ≠ .unsubscribe query.handle) :
    query ∈ (session.call call).engine.queries := by
  cases call with
  | subscribeSink pattern sink =>
      apply engine_perform (query ∈ ·.queries) member
      intro handle engine services run
      obtain ⟨_, _, _, plan, _, rfl⟩ := Engine.subscribeSink_ok run
      exact List.mem_append_left _ member
  | subscribe pattern destination =>
      apply engine_perform (query ∈ ·.queries) member
      intro handle engine services run
      obtain ⟨sink, middle, planned, subscribed, _⟩ := Engine.subscribe_ok run
      obtain ⟨_, _, _, plan, _, rfl⟩ := Engine.subscribeSink_ok subscribed
      exact List.mem_append_left _ member
  | setCallback name sink =>
      apply engine_perform (query ∈ ·.queries) member
      intro _ engine services run
      rw [Engine.setCallback_ok run]
      exact member
  | unsubscribe handle =>
      apply engine_perform (query ∈ ·.queries) member
      intro found engine services run
      rw [Engine.unsubscribe_ok run]
      have different : query.handle ≠ handle := fun same => kept (same ▸ rfl)
      exact List.mem_filter.mpr ⟨member, by simpa using different⟩
  | _ => exact member

/-- The standing query with a handle is one for a pattern. -/
def Maintains
    (session : Session)
    (query : StandingQuery)
    (pattern : Pattern) : Prop :=
  query ∈ session.engine.queries ∧
    query.plan.Implements pattern session.services.catalog

/-- A session goes on maintaining a query through every call that does not drop
it. -/
theorem Maintains.call
    {session : Session}
    (sound : session.Sound)
    {query : StandingQuery}
    {pattern : Pattern}
    (maintains : session.Maintains query pattern)
    {call : Call}
    (kept : call ≠ .unsubscribe query.handle) :
    (session.call call).Maintains query pattern :=
  ⟨mem_queries_call maintains.1 kept,
    maintains.2.mono (sound.extends_call call)⟩

/-! ## Failing sinks -/

/-- Whether a batch fails because of a sink. -/
def failsAtSink (session : Session) (changes : List Change) : Bool :=
  match (session.engine.apply changes session.services).1 with
  | .error error => error.isOfSink
  | .ok _ => false

/-- Sinks that cannot fail never make a batch fail. -/
theorem Sound.not_failsAtSink
    {session : Session}
    (sound : session.Sound)
    (trusts : session.engine.Trusts session.services.outlets)
    (changes : List Change) :
    session.failsAtSink changes = false := by
  obtain ⟨outcome, later, run, _, ends⟩ := sound.apply_ends changes
  rw [failsAtSink, run]
  cases ends with
  | unresolved => rfl
  | refused => rfl
  | unsent error catalog steps outlets counters staged grows ofSink
        distrusted =>
      exact absurd trusts distrusted
  | committed => rfl

/-! ## Registrations -/

/-- The handle that a call gives, if it registers a standing query. -/
def handle? (session : Session) : Call → Option Handle
  | .subscribeSink pattern sink =>
      (session.engine.subscribeSink pattern sink
        session.services).1.toOption.map Prod.fst
  | .subscribe pattern destination =>
      (session.engine.subscribe pattern destination
        session.services).1.toOption.map Prod.fst
  | _ => none

theorem perform_of_handle
    {session : Session}
    {action : ServiceM (Handle × Engine)}
    {handle : Handle}
    (accepted : (action session.services).1.toOption.map Prod.fst =
      some handle) :
    ∃ engine services,
      action session.services = (.ok (handle, engine), services) ∧
      session.perform action = ⟨engine, services⟩ := by
  obtain ⟨found, engine, services, run, performed⟩ | ⟨_, _, run, _⟩ :=
    session.perform_cases action
  · rw [run] at accepted
    cases accepted
    exact ⟨engine, services, run, performed⟩
  · rw [run] at accepted
    cases accepted

theorem maintains_of_subscribeSink
    {engine later : Engine}
    {pattern : Pattern}
    {sink : SinkId}
    {services after : Services}
    {handle : Handle}
    (run : engine.subscribeSink pattern sink services =
      (.ok (handle, later), after)) :
    pattern.fault? = none ∧ ∃ query : StandingQuery, query.handle = handle ∧
      query.sink = sink ∧
      (Session.mk later after).Maintains query pattern := by
  obtain ⟨faultless, _, _, plan, implements, rfl⟩ := Engine.subscribeSink_ok run
  refine ⟨faultless, ⟨handle, plan, sink⟩, rfl, rfl, ?_, implements⟩
  exact List.mem_append_right _ (.head _)

/-- A registration that is accepted is maintained. -/
theorem maintains_of_handle?
    {session : Session}
    {call : Call}
    {pattern : Pattern}
    {handle : Handle}
    (asked : call.pattern? = some pattern)
    (accepted : session.handle? call = some handle) :
    pattern.fault? = none ∧ ∃ query : StandingQuery, query.handle = handle ∧
      (∀ sink, call = .subscribeSink pattern sink → query.sink = sink) ∧
      (session.call call).Maintains query pattern := by
  cases call with
  | subscribeSink wanted sink =>
      cases asked
      obtain ⟨engine, services, run, performed⟩ := perform_of_handle accepted
      obtain ⟨faultless, query, same, delivers, maintains⟩ :=
        maintains_of_subscribeSink run
      rw [Session.call, performed]
      refine ⟨faultless, query, same, fun other registered => ?_, maintains⟩
      cases registered
      exact delivers
  | subscribe wanted destination =>
      cases asked
      obtain ⟨engine, services, run, performed⟩ := perform_of_handle accepted
      obtain ⟨sink, middle, planned, subscribed, catalog⟩ :=
        Engine.subscribe_ok run
      obtain ⟨faultless, query, same, _, member, implements⟩ :=
        maintains_of_subscribeSink subscribed
      rw [Session.call, performed]
      refine ⟨faultless, query, same, fun other registered => ?_, member, ?_⟩
      · cases registered
      · rw [catalog]
        exact implements
  | _ => cases asked

end Session

end DeltaGraph
