import DeltaGraph.Proofs.Engine.Resolving
import DeltaGraph.Proofs.Engine.Sending
import DeltaGraph.Proofs.Engine.Steps
import DeltaGraph.Proofs.Graph.Continuation

/-!
# Applying a batch

A batch ends in one of four ways.  A name in it may be unknown, or a change may
be refused by the graph; nothing is sent then.  Or all changes are staged, and
the standing queries are run on the staged graph.  If a sink fails the batch is
rolled back, and otherwise all events have been sent and the batch is committed.
-/

namespace DeltaGraph

/-- The graph once all changes of a batch are staged, if they can be. -/
def Services.staged?
    (services : Services)
    (changes : List Change) : Option Graph :=
  let staging : ServiceM Graph := do
    let resolved ← ServiceM.onCatalog (changes.mapM Change.resolve)
    let _ ← resolved.mapM ResolvedChange.stage
    return (← get).graph
  (staging services).1.toOption

namespace Engine

/-- The delta plans of all standing queries are well-formed. -/
def Planned (engine : Engine) : Prop :=
  ∀ query ∈ engine.queries, ∀ delta ∈ query.plan.deltas, delta.plan.WellFormed

/-- The events of all standing queries on a graph with a pending batch. -/
def events (engine : Engine) (graph : Graph) : List Event :=
  engine.queries.flatMap (·.events graph)

/-- None of the sinks of the standing queries can fail. -/
def Trusts (engine : Engine) (outlets : Outlets) : Prop :=
  outlets.Trusts fun sink => ∃ query ∈ engine.queries, query.sink = sink

/-- An engine trusts its outlets exactly when no sink of its queries can
fail. -/
theorem trusts_iff {engine : Engine} {outlets : Outlets} :
    engine.Trusts outlets ↔ ∀ query ∈ engine.queries,
      (outlets.sinks[query.sink]?).all (!outlets.canFail ·) = true := by
  simp [Trusts, Outlets.Trusts, Option.all_eq_true]

instance
    (engine : Engine)
    (outlets : Outlets) : Decidable (engine.Trusts outlets) :=
  decidable_of_iff _ trusts_iff.symm

/-- The ways in which a batch can end. -/
inductive Applies (engine : Engine) (changes : List Change)
    (services : Services) :
    Except Error BatchReport → Services → Prop
  /-- A type is not known. -/
  | unresolved (name : String) (catalog : Catalog)
      (unstaged : services.staged? changes = none)
      (grows : services.catalog.Extends catalog) :
      Applies engine changes services (.error (.unknownType name))
        { services with catalog }
  /-- The graph refuses a change. -/
  | refused (argument : InvalidArgument) (catalog : Catalog)
      (steps : List BatchStep)
      (unstaged : services.staged? changes = none)
      (grows : services.catalog.Extends catalog) :
      Applies engine changes services (.error (.invalid argument))
        { services with
          catalog
          graph := (services.graph.stageAll steps).rollback.2 }
  /-- A sink fails. -/
  | unsent (error : Error) (catalog : Catalog) (steps : List BatchStep)
      (outlets : Outlets)
      (counters : Counters)
      (staged : services.staged? changes = some (services.graph.stageAll steps))
      (grows : services.catalog.Extends catalog)
      (ofSink : error.isOfSink = true)
      (distrusted : ¬ engine.Trusts services.outlets) :
      Applies engine changes services (.error error)
        { graph := (services.graph.stageAll steps).rollback.2, catalog, outlets,
          counters }
  /-- All events are sent. -/
  | committed (report : BatchReport) (catalog : Catalog)
      (steps : List BatchStep)
      (outlets : Outlets) (counters : Counters)
      (staged : services.staged? changes = some (services.graph.stageAll steps))
      (grows : services.catalog.Extends catalog)
      (received : services.outlets.Receives outlets
        (engine.eventsFor (services.graph.stageAll steps)))
      (counted : tally (engine.events (services.graph.stageAll steps)) =
        (report.emerged, report.deleted)) :
      Applies engine changes services (.ok report)
        { graph := (services.graph.stageAll steps).commit.2, catalog, outlets,
          counters }

theorem run_walkable (services : Services) :
    ServiceM.walkable services = (.ok services.graph.indexed, services) := rfl

/-- Staged changes are sent to the sinks. -/
theorem run_runBatch
    {engine : Engine}
    (planned : engine.Planned)
    {resolved : List ResolvedChange}
    {services staged : Services}
    {missing : List Bool}
    (sound : staged.graph.Sound)
    (run : resolved.mapM ResolvedChange.stage services =
      (.ok missing, staged)) :
    ∃ outlets counters,
      (engine.runBatch resolved services =
          (.ok {
            emerged := (tally (engine.events staged.graph)).1
            deleted := (tally (engine.events staged.graph)).2
            missing := missing.count true },
            { staged with outlets, counters }) ∧
        staged.outlets.Receives outlets (engine.eventsFor staged.graph)) ∨
      ∃ error,
        engine.runBatch resolved services =
          (.error error, { staged with outlets, counters }) ∧
        error.isOfSink = true ∧ ¬ engine.Trusts staged.outlets := by
  have counts :
      totals
        (engine.queries.map fun query => tally (query.events staged.graph)) =
        tally (engine.events staged.graph) :=
          totals_tally engine.queries (·.events staged.graph)
  have reached (next : List Bool → WalkableGraph → ServiceM BatchReport) :
      (do
        let missing ← resolved.mapM ResolvedChange.stage
        let walkable ← ServiceM.walkable
        next missing walkable) services =
          next missing staged.graph.indexed staged := by
    rw [run_bind_ok run, run_bind_ok (run_walkable staged)]
  let ours (sink : SinkId) : Prop := ∃ query ∈ engine.queries, query.sink = sink
  have allOurs : ∀ query ∈ engine.queries, ours query.sink :=
    fun query member => ⟨query, member, rfl⟩
  obtain ⟨outlets, counters, _, ⟨sent, received⟩ | ⟨error, sent, whose⟩⟩ :=
    engine.sends_queries sound allOurs planned staged
  · refine ⟨outlets, counters, .inl ⟨?_, received⟩⟩
    rw [runBatch, reached, run_bind_ok sent, counts]
    rfl
  · refine ⟨outlets, counters, .inr ⟨error, ?_, whose⟩⟩
    rw [runBatch, reached, run_bind_error sent]

theorem run_runBatch_error
    {engine : Engine}
    {resolved : List ResolvedChange}
    {services later : Services}
    {error : Error}
    (run : resolved.mapM ResolvedChange.stage services =
      (.error error, later)) :
    engine.runBatch resolved services = (.error error, later) := by
  rw [runBatch, run_bind_error run]

/-- What follows a batch that fails. -/
theorem run_apply_error
    {engine : Engine}
    {changes : List Change}
    {resolved : List ResolvedChange}
    {services known later : Services}
    {error : Error}
    (names : ServiceM.onCatalog (changes.mapM Change.resolve) services =
      (.ok resolved, known))
    (fails : engine.runBatch resolved known = (.error error, later)) :
    engine.apply changes services =
      (.error error, { later with graph := later.graph.rollback.2 }) := by
  rw [apply, run_bind_ok names]
  exact run_bind_error ((run_tryCatch_error fails).trans rfl)

theorem run_apply_ok
    {engine : Engine}
    {changes : List Change}
    {resolved : List ResolvedChange}
    {services known later : Services}
    {report : BatchReport}
    (names : ServiceM.onCatalog (changes.mapM Change.resolve) services =
      (.ok resolved, known))
    (succeeds : engine.runBatch resolved known = (.ok report, later)) :
    engine.apply changes services =
      (.ok { report with commit := later.graph.commit.1 },
        { later with graph := later.graph.commit.2 }) := by
  rw [apply, run_bind_ok names, run_bind_ok (run_tryCatch_ok succeeds)]
  rfl

/-- The ways in which a batch can end, with the steps that its changes take. -/
inductive Ends (engine : Engine) (changes : List Change) (services : Services) :
    Except Error BatchReport → Services → Prop
  /-- A name cannot be resolved. -/
  | unresolved (error : Error) (catalog : Catalog)
      (names : changes.mapM Change.resolve services.catalog =
        (.error error, catalog)) :
      Ends engine changes services (.error error) { services with catalog }
  /-- The graph refuses a step. -/
  | refused (error : Error) (catalog : Catalog) (resolved : List ResolvedChange)
      (reached : Graph)
      (names : changes.mapM Change.resolve services.catalog =
        (.ok resolved, catalog))
      (refuses :
        services.graph.Refuses (resolved.flatMap ResolvedChange.steps) error
          reached) :
      Ends engine changes services (.error error)
        { services with catalog, graph := reached.rollback.2 }
  /-- A sink fails. -/
  | unsent (error : Error) (catalog : Catalog) (resolved : List ResolvedChange)
      (staged : Graph)
      (outlets : Outlets) (counters : Counters)
      (names : changes.mapM Change.resolve services.catalog =
        (.ok resolved, catalog))
      (accepted :
        services.graph.Accepts (resolved.flatMap ResolvedChange.steps))
      (stages : staged =
        services.graph.stageAll (resolved.flatMap ResolvedChange.steps))
      (ofSink : error.isOfSink = true)
      (distrusted : ¬ engine.Trusts services.outlets) :
      Ends engine changes services (.error error)
        { graph := staged.rollback.2, catalog, outlets, counters }
  /-- All events are sent. -/
  | committed (report : BatchReport) (catalog : Catalog)
      (resolved : List ResolvedChange)
      (staged : Graph) (outlets : Outlets) (counters : Counters)
      (names : changes.mapM Change.resolve services.catalog =
        (.ok resolved, catalog))
      (accepted :
        services.graph.Accepts (resolved.flatMap ResolvedChange.steps))
      (stages : staged =
        services.graph.stageAll (resolved.flatMap ResolvedChange.steps))
      (received : services.outlets.Receives outlets (engine.eventsFor staged))
      (counted : tally (engine.events staged) =
        (report.emerged, report.deleted)) :
      Ends engine changes services (.ok report)
        { graph := staged.commit.2, catalog, outlets, counters }

theorem run_resolve
    {changes : List Change}
    {services : Services}
    {catalog : Catalog}
    {outcome : Except Error (List ResolvedChange)}
    (names : changes.mapM Change.resolve services.catalog =
      (outcome, catalog)) :
    ServiceM.onCatalog (changes.mapM Change.resolve) services =
      (outcome, { services with catalog }) := by
  rw [ServiceM.onCatalog, names]

/-- A batch ends in one of the ways. -/
theorem ends
    {engine : Engine}
    (planned : engine.Planned)
    (changes : List Change)
    {services : Services}
    (sound : services.graph.Sound) :
    engine.Ends changes services (engine.apply changes services).1
      (engine.apply changes services).2 := by
  cases names : (changes.mapM Change.resolve) services.catalog with
  | mk outcome catalog =>
      have known := run_resolve names
      cases outcome with
      | error error =>
          rw [apply, run_bind_error known]
          exact .unresolved error catalog names
      | ok resolved =>
          obtain ⟨accepted, missing, staging⟩ |
              ⟨error, reached, refuses, staging⟩ :=
            ResolvedChange.takes_stages resolved { services with catalog }
          · obtain ⟨outlets, counters,
                ⟨run, received⟩ | ⟨error, run, ofSink, distrusted⟩⟩ :=
              run_runBatch planned (sound.stageAll _) staging
            · rw [run_apply_ok known run]
              exact .committed _ catalog resolved _ outlets counters names
                accepted rfl
                received rfl
            · rw [run_apply_error known run]
              exact .unsent error catalog resolved _ outlets counters names
                accepted rfl
                ofSink distrusted
          · rw [run_apply_error known (run_runBatch_error staging)]
            exact .refused error catalog resolved reached names refuses

/-- What a batch that succeeds commits and reports. -/
theorem commits_of_apply
    {engine : Engine}
    (planned : engine.Planned)
    {changes : List Change}
    {services : Services}
    (sound : services.graph.Sound)
    {report : BatchReport}
    (succeeds : (engine.apply changes services).1 = .ok report) :
    ∃ resolved catalog outlets counters,
      changes.mapM Change.resolve services.catalog = (.ok resolved, catalog) ∧
      services.graph.Accepts (resolved.flatMap ResolvedChange.steps) ∧
      (engine.apply changes services).2 =
        { graph :=
          (services.graph.stageAll
            (resolved.flatMap ResolvedChange.steps)).commit.2
          catalog, outlets, counters } ∧
      report.commit =
        (services.graph.stageAll
          (resolved.flatMap ResolvedChange.steps)).commit.1 ∧
      report.missing =
        countMissing (services.graph.linksIn .merged) resolved := by
  cases names : (changes.mapM Change.resolve) services.catalog with
  | mk outcome catalog =>
      have known := run_resolve names
      cases outcome with
      | error error =>
          rw [apply, run_bind_error known] at succeeds
          cases succeeds
      | ok resolved =>
          obtain ⟨accepted, missing, staging⟩ |
              ⟨error, reached, refuses, staging⟩ :=
            ResolvedChange.takes_stages resolved { services with catalog }
          · have counted := count_missing staging
            obtain ⟨outlets, counters, ⟨run, _⟩ | ⟨error, run, _⟩⟩ :=
              run_runBatch planned (sound.stageAll _) staging
            · rw [run_apply_ok known run] at succeeds ⊢
              cases succeeds
              exact ⟨resolved, catalog, outlets, counters, rfl, accepted, rfl,
                rfl, counted⟩
            · rw [run_apply_error known run] at succeeds
              cases succeeds
          · rw [run_apply_error known (run_runBatch_error staging)] at succeeds
            cases succeeds

section

variable {changes : List Change} {services : Services} {catalog : Catalog}
  {resolved : List ResolvedChange}

theorem staged?_of_unresolved
    {error : Error}
    (names : changes.mapM Change.resolve services.catalog =
      (.error error, catalog)) :
    services.staged? changes = none := by
  rw [Services.staged?, run_bind_error (run_resolve names)]
  rfl

/-- A batch that the graph refuses stages nothing. -/
theorem staged?_of_refused
    {error : Error}
    {reached : Graph}
    (names : changes.mapM Change.resolve services.catalog =
      (.ok resolved, catalog))
    (refuses :
      services.graph.Refuses (resolved.flatMap ResolvedChange.steps) error
        reached) :
    services.staged? changes = none := by
  obtain ⟨accepted, _⟩ | ⟨_, _, _, staging⟩ :=
    ResolvedChange.takes_stages resolved { services with catalog }
  · exact absurd accepted refuses.not_accepts
  · rw [Services.staged?, run_bind_ok (run_resolve names),
      run_bind_error staging]
    rfl

/-- A batch that the graph accepts stages all of its steps. -/
theorem staged?_of_accepted
    (names : changes.mapM Change.resolve services.catalog =
      (.ok resolved, catalog))
    (accepted :
      services.graph.Accepts (resolved.flatMap ResolvedChange.steps)) :
    services.staged? changes =
      some (services.graph.stageAll
        (resolved.flatMap ResolvedChange.steps)) := by
  obtain ⟨_, missing, staging⟩ | ⟨_, _, refuses, _⟩ :=
    ResolvedChange.takes_stages resolved { services with catalog }
  · rw [Services.staged?, run_bind_ok (run_resolve names), run_bind_ok staging]
    rfl
  · exact absurd accepted refuses.not_accepts

theorem Ends.applies
    {engine : Engine}
    {outcome : Except Error BatchReport}
    {later : Services}
    (ended : engine.Ends changes services outcome later) :
    engine.Applies changes services outcome later := by
  cases ended with
  | unresolved error catalog names =>
      obtain ⟨name, rfl, _⟩ := Change.missesType_of_error names
      exact .unresolved name catalog (staged?_of_unresolved names)
        (Change.extends_of_resolved names)
  | refused error catalog resolved reached names refuses =>
      have unstaged := staged?_of_refused names refuses
      obtain ⟨before, _, _, _, _, rfl, refusal⟩ := refuses
      obtain ⟨argument, rfl, _⟩ := Graph.conflicts_of_refused refusal
      exact .refused argument catalog before unstaged
        (Change.extends_of_resolved names)
  | unsent error catalog resolved staged outlets counters names accepted stages
      ofSink
      distrusted =>
      subst stages
      exact .unsent error catalog _ outlets counters
        (staged?_of_accepted names accepted)
        (Change.extends_of_resolved names) ofSink distrusted
  | committed report catalog resolved staged outlets counters names accepted
      stages received
      counted =>
      subst stages
      exact .committed report catalog _ outlets counters
        (staged?_of_accepted names accepted)
        (Change.extends_of_resolved names) received counted

end

/-- A batch ends in one of the four ways. -/
theorem applies
    {engine : Engine}
    (planned : engine.Planned)
    (changes : List Change)
    {services : Services}
    (sound : services.graph.Sound) :
    engine.Applies changes services (engine.apply changes services).1
      (engine.apply changes services).2 :=
  (ends planned changes sound).applies

end Engine

end DeltaGraph
