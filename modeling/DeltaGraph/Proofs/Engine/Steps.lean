import DeltaGraph.Engine
import DeltaGraph.Proofs.Effects
import DeltaGraph.Proofs.Graph.Links

/-!
# Changes as steps

Staging a resolved change takes batch steps on the graph: an edge is added after
its ends were made known, and an edge is removed in one step.  The steps of a
list of changes are taken until one is refused.  A removal is missing if its
link is not in the set of edges as changed by the changes before it.
-/

namespace DeltaGraph

/-- Whatever the services are, the action takes the steps on the graph until one
is refused, and does nothing else. -/
def ServiceM.Takes
    {α : Type}
    (action : ServiceM α)
    (steps : List BatchStep) : Prop :=
  ∀ services : Services,
    (services.graph.Accepts steps ∧ ∃ value, action services =
      (.ok value, { services with graph := services.graph.stageAll steps })) ∨
    ∃ error reached, services.graph.Refuses steps error reached ∧
      action services = (.error error, { services with graph := reached })

namespace ServiceM

theorem takes_pure
    {α : Type}
    (value : α) :
    Takes (pure value : ServiceM α) [] :=
  fun _ => .inl ⟨trivial, value, rfl⟩

theorem Takes.bind
    {α β : Type}
    {action : ServiceM α}
    {next : α → ServiceM β}
    {steps more : List BatchStep}
    (first : action.Takes steps)
    (later : ∀ value, (next value).Takes more) :
    Takes (action >>= next) (steps ++ more) := by
  intro services
  rcases first services
    with ⟨accepted, value, run⟩ | ⟨error, reached, refuses, run⟩
  · rw [run_bind_ok run]
    rcases later value
        { services with graph := services.graph.stageAll steps } with
          ⟨acceptedMore, result, runMore⟩ | ⟨error, reached, refuses, runMore⟩
    · refine .inl
        ⟨Graph.accepts_append.mpr ⟨accepted, acceptedMore⟩, result, ?_⟩
      rw [runMore, Graph.stageAll_append]
    · exact .inr ⟨error, reached, .after accepted refuses, runMore⟩
  · exact .inr ⟨error, reached, refuses.append more, run_bind_error run⟩

theorem Takes.mapM
    {α β : Type}
    {items : List α}
    {action : α → ServiceM β}
    {steps : α → List BatchStep}
    (each : ∀ item, (action item).Takes (steps item)) :
    Takes (items.mapM action) (items.flatMap steps) := by
  induction items with
  | nil => exact takes_pure []
  | cons first rest inductionHypothesis =>
      rw [List.mapM_cons, List.flatMap_cons, ←
        List.append_nil (rest.flatMap steps)]
      exact (each first).bind fun value =>
        inductionHypothesis.bind fun values =>
          takes_pure (value :: values)

/-- An operation on the graph that does what a batch step does. -/
theorem takes_onGraph
    {α : Type}
    {action : Graph → Except Error (α × Graph)}
    {step : BatchStep}
    (same : ∀ graph, (action graph).map Prod.snd = graph.attempt step) :
    Takes (onGraph action) [step] := by
  intro services
  have attempted := same services.graph
  rw [onGraph]
  cases run : action services.graph with
  | error error =>
      rw [run] at attempted
      exact .inr
        ⟨error, services.graph,
          ⟨[], step, [], rfl, trivial, rfl, attempted.symm⟩, rfl⟩
  | ok result =>
      obtain ⟨value, next⟩ := result
      rw [run] at attempted
      refine .inl ⟨⟨⟨next, attempted.symm⟩, trivial⟩, value, ?_⟩
      have staged : services.graph.stageAll [step] = next :=
        Graph.stage_of_attempt attempted.symm
      rw [staged]

end ServiceM

/-- The batch steps of a change. -/
def ResolvedChange.steps : ResolvedChange → List BatchStep
  | add edge =>
      [.putVertex edge.link.source edge.sourceType edge.sourceValues,
        .putVertex edge.link.target edge.targetType edge.targetValues,
        .addEdge edge.link edge.edgeValues]
  | remove link => [.removeEdge link]

theorem ServiceM.takes_putVertex (vertex : VertexId) (type : Option TypeId)
    (values : List (PropertyId × Value)) :
    Takes (onGraph fun graph =>
      (graph.putVertex vertex type values).map ((), ·))
      [.putVertex vertex type values] := by
  refine takes_onGraph fun graph => ?_
  rw [Graph.attempt]
  cases graph.putVertex vertex type values <;> rfl

/-- Staging a change takes its steps. -/
theorem ResolvedChange.takes_stage (change : ResolvedChange) :
    change.stage.Takes change.steps := by
  cases change with
  | add edge =>
      have taken :
          (ServiceM.onGraph fun graph =>
            graph.addEdge edge.link edge.edgeValues).Takes
          [.addEdge edge.link edge.edgeValues] :=
        ServiceM.takes_onGraph fun _ => rfl
      have staged : edge.stage.Takes (ResolvedChange.add edge).steps :=
        (ServiceM.takes_putVertex _ _ _).bind fun _ =>
          (ServiceM.takes_putVertex _ _ _).bind fun _ =>
            taken.bind fun _ => ServiceM.takes_pure ()
      exact staged.bind fun _ => ServiceM.takes_pure false
  | remove link =>
      unfold stage steps
      refine ServiceM.takes_onGraph fun graph => ?_
      rw [Graph.attempt]
      cases graph.removeEdge? link <;> rfl

/-- Staging changes takes their steps one after another. -/
theorem ResolvedChange.takes_stages (changes : List ResolvedChange) :
    (changes.mapM ResolvedChange.stage).Takes
      (changes.flatMap ResolvedChange.steps) :=
  ServiceM.Takes.mapM ResolvedChange.takes_stage

/-! ## Missing removals -/

/-- The change of the set of edges that a change asks for. -/
def ResolvedChange.linkChange : ResolvedChange → LinkChange
  | add edge => .insert edge.link
  | remove link => .erase link

/-- Whether the change removes an edge that is not there. -/
def ResolvedChange.misses (links : Finset Link) : ResolvedChange → Bool
  | add _ => false
  | remove link => link ∉ links

/-- The number of removals whose edge is not there once the changes before them
are made. -/
def countMissing (links : Finset Link) : List ResolvedChange → Nat
  | [] => 0
  | change :: rest =>
      (change.misses links).toNat +
        countMissing (change.linkChange.apply links) rest

theorem ResolvedChange.linkChanges_steps (change : ResolvedChange) :
    change.steps.filterMap BatchStep.linkChange? = [change.linkChange] := by
  cases change <;> rfl

theorem ResolvedChange.linkChanges_flatMap (changes : List ResolvedChange) :
    (changes.flatMap ResolvedChange.steps).filterMap BatchStep.linkChange? =
      changes.map ResolvedChange.linkChange := by
  induction changes with
  | nil => rfl
  | cons change rest inductionHypothesis =>
      rw [List.flatMap_cons, List.filterMap_append, linkChanges_steps,
        inductionHypothesis]
      rfl

/-- A staged change makes its change of the set of edges, and tells whether it
misses an edge. -/
theorem ResolvedChange.stage_eq_ok
    {change : ResolvedChange}
    {services later : Services}
    {missed : Bool}
    (run : change.stage services = (.ok missed, later)) :
    later.graph.linksIn .merged =
      change.linkChange.apply (services.graph.linksIn .merged) ∧
      missed = change.misses (services.graph.linksIn .merged) := by
  constructor
  · rcases change.takes_stage services
      with ⟨accepted, value, taken⟩ | ⟨_, _, _, taken⟩
    · rw [run, Prod.mk.injEq] at taken
      rw [taken.2, Graph.linksIn_merged_stageAll accepted,
        change.linkChanges_steps]
      rfl
    · rw [run] at taken
      cases taken
  · cases change with
    | add edge =>
        obtain ⟨_, _, _, last⟩ := run_bind_eq_ok.mp run
        cases last
        rfl
    | remove link =>
        have present := @Graph.isSome_removeEdge?_iff services.graph link
        simp only [stage, ServiceM.onGraph] at run
        cases removal : services.graph.removeEdge? link with
        | none =>
            rw [removal] at run present
            cases run
            simp [misses, ← present]
        | some next =>
            rw [removal] at run present
            cases run
            simp [misses, ← present]

/-- Staging changes finds the missing removals. -/
theorem count_missing
    {changes : List ResolvedChange}
    {services later : Services}
    {missing : List Bool}
    (run : changes.mapM ResolvedChange.stage services = (.ok missing, later)) :
    missing.count true =
      countMissing (services.graph.linksIn .merged) changes := by
  induction changes generalizing services missing with
  | nil =>
      cases run
      rfl
  | cons change rest inductionHypothesis =>
      rw [List.mapM_cons] at run
      obtain ⟨missed, middle, first, run⟩ := run_bind_eq_ok.mp run
      obtain ⟨others, last, second, run⟩ := run_bind_eq_ok.mp run
      cases run
      obtain ⟨changed, rfl⟩ := ResolvedChange.stage_eq_ok first
      rw [List.count_cons, inductionHypothesis second, changed, countMissing,
        Nat.add_comm]
      cases change.misses (services.graph.linksIn .merged) <;> rfl

namespace Engine

/-- The changes of a batch that succeeds were staged. -/
theorem runBatch_eq_ok {engine : Engine} {resolved : List ResolvedChange}
    {services later : Services} {report : BatchReport}
    (succeeds : engine.runBatch resolved services = (.ok report, later)) :
    ∃ missing staged,
      resolved.mapM ResolvedChange.stage services = (.ok missing, staged) ∧
      report.missing = missing.count true := by
  obtain ⟨missing, staged, staging, succeeds⟩ := run_bind_eq_ok.mp succeeds
  obtain ⟨walkable, _, _, succeeds⟩ := run_bind_eq_ok.mp succeeds
  obtain ⟨counts, _, _, succeeds⟩ := run_bind_eq_ok.mp succeeds
  cases succeeds
  exact ⟨missing, staged, staging, rfl⟩

/-- The names of a batch that succeeds were resolved, and its changes were
staged. -/
theorem apply_eq_ok
    {engine : Engine}
    {changes : List Change}
    {services later : Services}
    {report : BatchReport}
    (succeeds : engine.apply changes services = (.ok report, later)) :
    ∃ resolved catalog missing staged,
      changes.mapM Change.resolve services.catalog = (.ok resolved, catalog) ∧
      resolved.mapM ResolvedChange.stage { services with catalog } =
        (.ok missing, staged) ∧
      report.missing = missing.count true := by
  obtain ⟨resolved, known, names, succeeds⟩ := run_bind_eq_ok.mp succeeds
  obtain ⟨found, reached, attempted, succeeds⟩ := run_bind_eq_ok.mp succeeds
  obtain ⟨commit, _, _, succeeds⟩ := run_bind_eq_ok.mp succeeds
  cases succeeds
  have ran : engine.runBatch resolved known = (.ok found, reached) := by
    cases ran : engine.runBatch resolved known with
    | mk outcome middle =>
        cases outcome with
        | ok value => rwa [run_tryCatch_ok ran] at attempted
        | error error =>
            -- What handles an error throws it again.
            rw [run_tryCatch_error ran] at attempted
            obtain ⟨_, _, _, thrown⟩ := run_bind_eq_ok.mp attempted
            cases thrown
  obtain ⟨missing, staged, staging, counted⟩ := runBatch_eq_ok ran
  cases resolving : (changes.mapM Change.resolve) services.catalog with
  | mk outcome catalog =>
      rw [ServiceM.onCatalog, resolving] at names
      cases names
      exact ⟨resolved, catalog, missing, staged, rfl, staging, counted⟩

/-- Staging a batch does to the edges what its changes do to a set of links, and
a batch that succeeds reports the removals that find nothing in that set. -/
theorem stages_as_set {graph : Graph} (reachable : graph.Reachable)
    (quiet : graph.isPending = false) :
    (∀ steps, graph.StagesAsSet steps) ∧
      ∀ (engine : Engine) (changes : List Change) (services : Services)
        (report : BatchReport),
        services.graph = graph →
          (engine.apply changes services).1 = .ok report →
        ∃ resolved catalog,
          changes.mapM Change.resolve services.catalog =
            (.ok resolved, catalog) ∧
          report.missing =
            countMissing (graph.linksIn .permanent) resolved := by
  have stages := reachable.sound.stagesAsSet quiet
  refine ⟨stages, fun engine changes services report same succeeds => ?_⟩
  subst same
  obtain ⟨resolved, catalog, missing, staged, names, staging, counted⟩ :=
    apply_eq_ok (Prod.ext succeeds rfl)
  have start :
      services.graph.linksIn .merged = services.graph.linksIn .permanent :=
    (stages []).merged
  exact ⟨resolved, catalog, names,
    by rw [counted, count_missing staging, start]⟩

/-- A batch that removes a committed edge twice and adds it again, and that
removes an edge that was never there. -/
theorem stages_as_set_for_toggled_edge :
    let graph := (Graph.empty.stage (.addEdge ⟨⟨1⟩, ⟨2⟩, .default⟩ [])).commit.2
    let changes : List Change :=
      [.remove ⟨⟨1⟩, ⟨2⟩, none⟩, .remove ⟨⟨1⟩, ⟨2⟩, none⟩,
        .add { source := ⟨1⟩, target := ⟨2⟩ }, .remove ⟨⟨2⟩, ⟨1⟩, none⟩]
    let steps : List BatchStep :=
      [.removeEdge ⟨⟨1⟩, ⟨2⟩, .default⟩, .addEdge ⟨⟨1⟩, ⟨2⟩, .default⟩ []]
    graph.Reachable ∧ graph.isPending = false ∧ graph.StagesAsSet steps ∧
      ((new {}).apply changes { graph }).1 =
        .ok { missing := 2, commit := { touched := 1 } } ∧
      ∃ resolved catalog,
        changes.mapM Change.resolve .empty = (.ok resolved, catalog) ∧
        2 = countMissing (graph.linksIn .permanent) resolved := by
  intro graph changes steps
  have reachable : graph.Reachable := (Graph.Reachable.empty.stage _).commit
  have quiet : graph.isPending = false := rfl
  have succeeds : ((new {}).apply changes { graph }).1 =
      .ok { missing := 2, commit := { touched := 1 } } := by decide +kernel
  obtain ⟨stages, counts⟩ := stages_as_set reachable quiet
  exact ⟨reachable, quiet, stages steps, succeeds,
    counts (new {}) changes { graph } _ rfl succeeds⟩

end Engine

end DeltaGraph
