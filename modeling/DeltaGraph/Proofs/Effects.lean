import DeltaGraph.Services
import Mathlib.Data.List.Forall2
import Mathlib.Order.Defs.Unbundled

/-!
# Running steps that may fail

A step that may fail is a function from a state to an outcome and a state.  The
equations below run compound steps on a state.
-/

namespace DeltaGraph

section

variable {σ α β : Type}

/-- What follows a step runs if the step succeeds. -/
theorem run_bind (first : ExceptT Error (StateM σ) α)
    (next : α → ExceptT Error (StateM σ) β) (state : σ) :
    (first >>= next) state =
      match first state with
      | (.ok value, later) => next value later
      | (.error error, later) => (.error error, later) := by
  simp only [bind, ExceptT.bind, ExceptT.mk, StateT.bind, ExceptT.bindCont]
  cases first state with
  | mk outcome later => cases outcome <;> rfl

/-- A value that may be missing for an error is had without touching the
state. -/
theorem run_except (value : Except Error α) (state : σ) :
    (liftM value : ExceptT Error (StateM σ) α) state = (value, state) := rfl

/-- Reading the state leaves it as it is. -/
theorem run_get (state : σ) :
    (get : ExceptT Error (StateM σ) σ) state = (.ok state, state) := rfl

/-- A sequence whose first action succeeds goes on with its value and state. -/
theorem run_bind_ok {first : ExceptT Error (StateM σ) α}
    {next : α → ExceptT Error (StateM σ) β} {state later : σ} {value : α}
    (succeeds : first state = (.ok value, later)) :
    (first >>= next) state = next value later := by
  rw [run_bind, succeeds]

/-- A sequence whose first action fails ends there, in the state of the
failure. -/
theorem run_bind_error {first : ExceptT Error (StateM σ) α}
    {next : α → ExceptT Error (StateM σ) β} {state later : σ} {error : Error}
    (fails : first state = (.error error, later)) :
    (first >>= next) state = (.error error, later) := by
  rw [run_bind, fails]

/-- What follows a step that fails is not run. -/
theorem outcome_bind_error
    {first : ExceptT Error (StateM σ) α}
    {next : α → ExceptT Error (StateM σ) β}
    {state : σ}
    {error : Error}
    (fails : (first state).1 = .error error) :
    ((first >>= next) state).1 = .error error := by
  rw [run_bind_error (Prod.ext fails rfl)]

/-- What follows a step that succeeds is run in the state that the step leads
to. -/
theorem exists_bind_of_outcome_ok {first : ExceptT Error (StateM σ) α}
    {next : α → ExceptT Error (StateM σ) β} {state : σ} {value : α}
    (succeeds : (first state).1 = .ok value) :
    ∃ later, (first >>= next) state = next value later :=
  ⟨(first state).2, run_bind_ok (Prod.ext succeeds rfl)⟩

/-- What follows a step succeeds if both the step and what follows it do. -/
theorem run_bind_eq_ok {first : ExceptT Error (StateM σ) α}
    {next : α → ExceptT Error (StateM σ) β} {state later : σ} {result : β} :
    (first >>= next) state = (.ok result, later) ↔
      ∃ value middle, first state = (.ok value, middle) ∧
        next value middle = (.ok result, later) := by
  constructor
  · intro succeeds
    rw [run_bind] at succeeds
    cases run : first state with
    | mk outcome middle =>
        rw [run] at succeeds
        cases outcome with
        | ok value => exact ⟨value, middle, rfl, succeeds⟩
        | error error => cases succeeds
  · rintro ⟨value, middle, succeeds, last⟩
    exact (run_bind_ok succeeds).trans last

/-- What depends on a value that may be missing is had if the value is. -/
theorem exists_of_bind_eq_ok
    {ε : Type}
    {value : Except ε α}
    {next : α → Except ε β}
    {result : β}
    (had : value >>= next = .ok result) :
    ∃ found, value = .ok found ∧ next found = .ok result := by
  cases value with
  | error error => cases had
  | ok found => exact ⟨found, rfl, had⟩

/-- Values that may be missing for an error are all had without touching the
state. -/
theorem run_mapM_except
    (items : List α)
    (value : α → Except Error β)
    (state : σ) :
    (items.mapM fun item => (liftM (value item) : ExceptT Error (StateM σ) β))
    state =
      (items.mapM value, state) := by
  induction items generalizing state with
  | nil => rfl
  | cons first rest inductionHypothesis =>
      rw [List.mapM_cons, List.mapM_cons, run_bind, run_except]
      cases value first with
      | error error => rfl
      | ok found =>
          refine (run_bind _ _ _).trans ?_
          rw [inductionHypothesis]
          cases rest.mapM value <;> rfl

theorem mapM_liftM (items : List α) (value : α → Except Error β) :
    (items.mapM fun item => (liftM (value item) : ExceptT Error (StateM σ) β)) =
      liftM (items.mapM value) :=
  funext fun state => run_mapM_except items value state

/-- If a value can be had for every member of a list, all values can be had. -/
theorem mapM_total
    (items : List α)
    (value : α → Except Error β)
    (Good : α → β → Prop)
    (each : ∀ item ∈ items, ∃ found, value item = .ok found ∧ Good item found) :
    ∃ results, items.mapM value = .ok results ∧
      List.Forall₂ Good items results := by
  induction items with
  | nil => exact ⟨[], rfl, .nil⟩
  | cons first rest inductionHypothesis =>
      obtain ⟨found, had, good⟩ := each first (.head _)
      obtain ⟨results, all, others⟩ :=
        inductionHypothesis fun item member => each item (.tail _ member)
      refine ⟨found :: results, ?_, .cons good others⟩
      rw [List.mapM_cons, had, all]
      rfl

/-- A traversal that succeeds has a result for each item, in order. -/
theorem forall₂_of_mapM_ok
    {items : List α}
    {value : α → Except Error β}
    {results : List β}
    (succeeds : items.mapM value = .ok results) :
    List.Forall₂ (fun item result => value item = .ok result) items
      results := by
  induction items generalizing results with
  | nil =>
      cases succeeds
      exact .nil
  | cons first rest inductionHypothesis =>
      rw [List.mapM_cons] at succeeds
      obtain ⟨found, had, rested⟩ := exists_of_bind_eq_ok succeeds
      obtain ⟨remaining, others, made⟩ := exists_of_bind_eq_ok rested
      cases made
      exact .cons had (inductionHypothesis others)

theorem mapM_of_forall_eq
    (items : List α)
    (value : α → Except Error β)
    (result : α → β)
    (each : ∀ item ∈ items, value item = .ok (result item)) :
    items.mapM value = .ok (items.map result) := by
  induction items with
  | nil => rfl
  | cons first rest inductionHypothesis =>
      have others :=
        inductionHypothesis fun item member => each item (.tail _ member)
      rw [List.mapM_cons, each first (.head _), others]
      rfl

theorem run_tryCatch_ok {action : ExceptT Error (StateM σ) α}
    {handler : Error → ExceptT Error (StateM σ) α} {state later : σ} {value : α}
    (succeeds : action state = (.ok value, later)) :
    (tryCatch action handler) state = (.ok value, later) := by
  simp only [tryCatch, tryCatchThe, MonadExceptOf.tryCatch, ExceptT.tryCatch,
    ExceptT.mk, bind, StateT.bind, succeeds]
  rfl

/-- A caught failure is handled in the state the action left. -/
theorem run_tryCatch_error
    {action : ExceptT Error (StateM σ) α}
    {handler : Error → ExceptT Error (StateM σ) α}
    {state later : σ}
    {error : Error}
    (fails : action state = (.error error, later)) :
    (tryCatch action handler) state = handler error later := by
  simp only [tryCatch, tryCatchThe, MonadExceptOf.tryCatch, ExceptT.tryCatch,
    ExceptT.mk, bind, StateT.bind, fails]

end

/-! ## Where actions lead -/

section

variable {σ α β : Type} {related : σ → σ → Prop}

/-- Whatever comes out of the action, it leads to a state that is related to the
one it starts in. -/
def Leads (related : σ → σ → Prop) (action : StateM σ α) : Prop :=
  ∀ state, related state (action state).2

/-- Whatever comes out of the step, it leads to a state that is related to the
one it starts in. -/
abbrev StepLeads
    (related : σ → σ → Prop)
    (step : ExceptT Error (StateM σ) α) : Prop :=
  Leads related (α := Except Error α) step

/-- Two actions that move the state along a transitive relation do so one after
the other. -/
theorem Leads.bind
    [IsTrans σ related]
    {action : StateM σ α}
    {next : α → StateM σ β}
    (first : Leads related action)
    (later : ∀ value, Leads related (next value)) :
    Leads related (action >>= next) :=
  fun state =>
    IsTrans.trans _ _ _ (first state) (later (action state).1 (action state).2)

/-- Two steps that move the state along a transitive relation do so one after
the other, failing or not. -/
theorem StepLeads.bind
    [IsTrans σ related]
    {step : ExceptT Error (StateM σ) α}
    {next : α → ExceptT Error (StateM σ) β}
    (first : StepLeads related step)
    (later : ∀ value, StepLeads related (next value)) :
    StepLeads related (step >>= next) := by
  intro state
  have reached := first state
  rw [run_bind]
  cases run : step state with
  | mk outcome middle =>
      rw [run] at reached
      cases outcome with
      | ok value => exact IsTrans.trans _ _ _ reached (later value middle)
      | error error => exact reached

/-- A step and its handler that both move the state along a transitive relation
do so together. -/
theorem StepLeads.tryCatch
    [IsTrans σ related]
    {step : ExceptT Error (StateM σ) α}
    {handler : Error → ExceptT Error (StateM σ) α}
    (first : StepLeads related step)
    (handled : ∀ error, StepLeads related (handler error)) :
    StepLeads related (tryCatch step handler) := by
  intro state
  have reached := first state
  cases run : step state with
  | mk outcome middle =>
      rw [run] at reached
      cases outcome with
      | ok value =>
          rw [run_tryCatch_ok run]
          exact reached
      | error error =>
          rw [run_tryCatch_error run]
          exact IsTrans.trans _ _ _ reached (handled error middle)

theorem Leads.mapM
    [IsPreorder σ related]
    {items : List α}
    {action : α → StateM σ β}
    (each : ∀ item, Leads related (action item)) :
    Leads related (items.mapM action) := by
  induction items with
  | nil => exact fun state => refl state
  | cons first rest inductionHypothesis =>
      rw [List.mapM_cons]
      exact (each first).bind fun _ =>
        inductionHypothesis.bind fun _ state => refl state

/-- A traversal moves the state along a preorder when each of its steps does. -/
theorem StepLeads.mapM
    [IsPreorder σ related]
    {items : List α}
    {step : α → ExceptT Error (StateM σ) β}
    (each : ∀ item, StepLeads related (step item)) :
    StepLeads related (items.mapM step) := by
  induction items with
  | nil => exact fun state => refl state
  | cons first rest inductionHypothesis =>
      rw [List.mapM_cons]
      exact StepLeads.bind (each first) fun _ =>
        StepLeads.bind inductionHypothesis fun _ state => refl state

end

/-! ## How steps fail -/

section

variable {σ α β : Type} {state later : σ} {error : Error}

/-- Two steps fail if the first fails, or if the second fails after it. -/
theorem run_bind_eq_error {first : ExceptT Error (StateM σ) α}
    {next : α → ExceptT Error (StateM σ) β} :
    (first >>= next) state = (.error error, later) ↔
      first state = (.error error, later) ∨
        ∃ value middle, first state = (.ok value, middle) ∧
          next value middle = (.error error, later) := by
  constructor
  · intro fails
    cases run : first state with
    | mk outcome middle =>
        cases outcome with
        | ok value =>
            rw [run_bind_ok run] at fails
            exact .inr ⟨value, middle, rfl, fails⟩
        | error found =>
            rw [run_bind_error run] at fails
            cases fails
            exact .inl rfl
  · rintro (fails | ⟨value, middle, succeeds, last⟩)
    · exact run_bind_error fails
    · exact (run_bind_ok succeeds).trans last

/-- If a row of steps fails, one of them fails after those before it have
succeeded. -/
theorem exists_of_mapM_error
    {items : List α}
    {step : α → ExceptT Error (StateM σ) β}
    (fails : items.mapM step state = (.error error, later)) :
    ∃ before item after results middle, items = before ++ item :: after ∧
      before.mapM step state = (.ok results, middle) ∧
      step item middle = (.error error, later) := by
  induction items generalizing state with
  | nil => cases fails
  | cons first rest inductionHypothesis =>
      rw [List.mapM_cons] at fails
      rcases run_bind_eq_error.mp fails
        with here | ⟨value, middle, succeeds, fails⟩
      · exact ⟨[], first, rest, [], state, rfl, rfl, here⟩
      rcases run_bind_eq_error.mp fails with there | ⟨_, _, _, last⟩
      · obtain ⟨before, item, after, results, reached, rfl, earlier, found⟩ :=
          inductionHypothesis there
        refine ⟨first :: before, item, after, value :: results, reached, rfl,
          ?_, found⟩
        rw [List.mapM_cons, run_bind_ok succeeds, run_bind_ok earlier]
        rfl
      · cases last

end

/-! ## What steps return -/

section

variable {σ α β : Type} {Good : α → Prop}

/-- Whatever the step returns is good. -/
def StepReturns (Good : α → Prop) (step : ExceptT Error (StateM σ) α) : Prop :=
  ∀ state value later, step state = (.ok value, later) → Good value

theorem StepReturns.pure {value : α} (good : Good value) :
    StepReturns Good (Pure.pure value : ExceptT Error (StateM σ) α) := by
  rintro state _ later ⟨⟩
  exact good

/-- A sequence returns good values when its continuation does on every value the
first step can return. -/
theorem StepReturns.bind_of
    {Found : β → Prop}
    {step : ExceptT Error (StateM σ) β}
    {next : β → ExceptT Error (StateM σ) α}
    (first : StepReturns Found step)
    (later : ∀ value, Found value → StepReturns Good (next value)) :
    StepReturns Good (step >>= next) := by
  intro state result last returned
  obtain ⟨value, middle, run, rest⟩ := run_bind_eq_ok.mp returned
  exact later value (first state value middle run) middle result last rest

theorem StepReturns.bind
    {step : ExceptT Error (StateM σ) β}
    {next : β → ExceptT Error (StateM σ) α}
    (later : ∀ value, StepReturns Good (next value)) :
    StepReturns Good (step >>= next) := by
  have first : StepReturns (fun _ => True) step := fun _ _ _ _ => trivial
  exact first.bind_of fun value _ => later value

/-- A traversal returns only good results when each of its steps does. -/
theorem StepReturns.mapM
    {items : List β}
    {step : β → ExceptT Error (StateM σ) α}
    (each : ∀ item, StepReturns Good (step item)) :
    StepReturns (fun results => ∀ result ∈ results, Good result)
      (items.mapM step) := by
  induction items with
  | nil => exact .pure fun _ member => absurd member List.not_mem_nil
  | cons first rest inductionHypothesis =>
      rw [List.mapM_cons]
      exact (each first).bind_of fun value good =>
        inductionHypothesis.bind_of fun values all =>
          .pure (List.forall_mem_cons.mpr ⟨good, all⟩)

end

end DeltaGraph
