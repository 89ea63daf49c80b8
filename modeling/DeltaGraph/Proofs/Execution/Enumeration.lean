import DeltaGraph.Execution.Pipeline
import DeltaGraph.Proofs.Effects
import Mathlib.Data.List.Nodup

/-!
# What a plan enumerates

The bindings that a plan comes upon are listed by nested loops, without a
receiver and without counters.  Executing the plan delivers their events in
this order until a delivery fails.
-/

namespace DeltaGraph

/-- Bindings in order, and the failure that ends the enumeration, if there is
one. -/
structure Enumeration where
  bindings : List Binding := []
  failure : Option Error := none

namespace Enumeration

/-- One enumeration after another. -/
def append (first next : Enumeration) : Enumeration :=
  match first.failure with
  | none => ⟨first.bindings ++ next.bindings, next.failure⟩
  | some _ => first

/-- The enumerations of the members of a list, one after another. -/
def each {α : Type} (items : List α) (body : α → Enumeration) : Enumeration :=
  items.foldr (fun item rest => (body item).append rest) {}

/-- The enumeration that depends on a value, if the value is there. -/
def given
    {α : Type}
    (value : Except Error α)
    (body : α → Enumeration) : Enumeration :=
  match value with
  | .ok value => body value
  | .error error => ⟨[], some error⟩

/-- Two enumerations without failure, one after the other, have the bindings of
both. -/
theorem append_of_complete
    {first next : Enumeration}
    (complete : first.failure = none)
    (nextComplete : next.failure = none) :
    first.append next = ⟨first.bindings ++ next.bindings, none⟩ := by
  rw [append, complete, nextComplete]

theorem append_nothing (enumeration : Enumeration) :
    enumeration.append {} = enumeration := by
  obtain ⟨bindings, failure⟩ := enumeration
  cases failure <;> simp [append]

/-- Enumerations that do not fail are simply joined. -/
theorem each_of_complete {α : Type} {items : List α} {body : α → Enumeration}
    (complete : ∀ item ∈ items, (body item).failure = none) :
    each items body =
      ⟨items.flatMap fun item => (body item).bindings, none⟩ := by
  induction items with
  | nil => rfl
  | cons first rest inductionHypothesis =>
      have later :=
        inductionHypothesis fun item member => complete item (.tail _ member)
      rw [each, List.foldr_cons, ← each, later]
      exact append_of_complete (complete first (.head _)) rfl

/-- The enumeration does not fail, and lists the bindings with a property, each
once. -/
structure Lists
    (enumeration : Enumeration)
    (property : Binding → Prop) : Prop where
  complete : enumeration.failure = none
  nodup : enumeration.bindings.Nodup
  mem_iff (binding : Binding) : binding ∈ enumeration.bindings ↔
    property binding

theorem Lists.congr
    {enumeration : Enumeration}
    {property another : Binding → Prop}
    (lists : enumeration.Lists property)
    (same : ∀ binding, property binding ↔ another binding) :
    enumeration.Lists another where
  complete := lists.complete
  nodup := lists.nodup
  mem_iff binding := (lists.mem_iff binding).trans (same binding)

/-- The bindings of one vertex after another are listed once each if they show
the vertex in a slot. -/
theorem lists_each
    (slot : Nat)
    {vertices : List VertexId}
    (different : vertices.Nodup)
    {body : VertexId → Enumeration}
    {property : VertexId → Binding → Prop}
    (each : ∀ vertex ∈ vertices, (body vertex).Lists (property vertex))
    (bound : ∀ vertex binding, property vertex binding →
      binding.vertices[slot]? = some vertex) :
    (Enumeration.each vertices body).Lists fun binding =>
      ∃ vertex ∈ vertices, property vertex binding := by
  rw [each_of_complete fun vertex member => (each vertex member).complete]
  refine ⟨rfl, ?_, fun binding => ?_⟩
  · rw [List.nodup_flatMap]
    refine ⟨fun vertex member => (each vertex member).nodup,
      different.imp_of_mem ?_⟩
    intro left right leftMember rightMember distinct binding inLeft inRight
    have boundLeft :=
      bound left binding (((each left leftMember).mem_iff binding).mp inLeft)
    have boundRight :=
      bound right binding
        (((each right rightMember).mem_iff binding).mp inRight)
    exact distinct (Option.some.inj (boundLeft.symm.trans boundRight))
  · rw [List.mem_flatMap]
    refine exists_congr fun vertex => and_congr_right fun member => ?_
    exact (each vertex member).mem_iff binding

end Enumeration

namespace Plan

/-- The event of a binding. -/
def event (plan : Plan) (binding : Binding) : Event :=
  ⟨plan.rowKind, plan.row binding.vertices binding.edges⟩

/-- The bindings that choose one edge for each remaining relation and pass the
conditions. -/
def chosen (plan : Plan) (graph : Graph) (vertices : List VertexId) :
    List (List EdgeId) → List EdgeId → List Binding
  | [], edges =>
      if plan.conditions.all (·.holds graph vertices edges) then
        [⟨vertices, edges⟩] else []
  | choices :: rest, edges =>
      choices.flatMap fun edge =>
        plan.chosen graph vertices rest (edges ++ [edge])

/-- Choosing the first edge in a loop and the others below it is choosing them
all. -/
theorem each_chosen (plan : Plan) (graph : Graph) (vertices : List VertexId)
    (choices : List EdgeId) (rest : List (List EdgeId)) (edges : List EdgeId) :
    Enumeration.each choices (fun edge =>
        ⟨plan.chosen graph vertices rest (edges ++ [edge]), none⟩) =
      ⟨plan.chosen graph vertices (choices :: rest) edges, none⟩ :=
  Enumeration.each_of_complete fun _ _ => rfl

/-- The bindings of a complete tuple of vertices. -/
def resolved
    (plan : Plan)
    (walkable : WalkableGraph)
    (vertices : List VertexId) :
    Enumeration :=
  .given (plan.lookups.mapM fun lookup => lookup.resolve walkable vertices)
    fun choices =>
      ⟨plan.chosen walkable.graph vertices choices [], none⟩

/-- The bindings that bind one more variable for each remaining stage. -/
def extended (plan : Plan) (walkable : WalkableGraph) :
    List (Stage × Option TypeId) → List VertexId → Enumeration
  | [], vertices => plan.resolved walkable vertices
  | (stage, type) :: rest, vertices =>
      .given (stage.admissible walkable vertices) fun candidates =>
        .each (candidates.filter (walkable.graph.hasType type)) fun vertex =>
          plan.extended walkable rest (vertices ++ [vertex])

/-- The bindings that start from the pairs of vertices of the first stage. -/
def scanned
    (plan : Plan)
    (walkable : WalkableGraph)
    (first : Rule)
    (stage : Stage)
    (sourceType targetType : Option TypeId)
    (rest : List (Stage × Option TypeId)) :
    Enumeration :=
  let sources := walkable.graph.sources first.version first.direction
  .each (sources.filter (walkable.graph.hasType sourceType)) fun source =>
    .given (stage.intersection walkable [source]) fun candidates =>
      .each (candidates.filter (walkable.graph.hasType targetType))
        fun target =>
          plan.extended walkable rest [source, target]

/-- All bindings of a plan. -/
def enumeration (plan : Plan) (walkable : WalkableGraph) : Enumeration :=
  match plan.shapeViolation? with
  | some violation => ⟨[], some (.violated violation)⟩
  | none =>
      match plan.stages, plan.types with
      | (first :: others) :: rest, sourceType :: targetType :: types =>
          plan.scanned walkable first (first :: others) sourceType targetType
            (rest.zip types)
      | _, _ => {}

end Plan

/-- Delivers events one after another, until a delivery fails. -/
def Delivery.all
    {σ : Type}
    (deliver : Delivery σ) : List Event → ExceptT Error (StateM σ) Unit
  | [] => pure ()
  | event :: rest => do
      deliver event
      Delivery.all deliver rest

namespace Job

variable {σ : Type}

/-- Delivers the events of an enumeration, and then fails as it does. -/
def play
    (job : Job σ)
    (enumeration : Enumeration) : ExceptT Error (StateM σ) Unit := do
  job.deliver.all (enumeration.bindings.map job.plan.event)
  match enumeration.failure with
  | none => pure ()
  | some error => throw error

/-- An execution that delivers the events of an enumeration, and counts
them. -/
structure Plays
    (job : Job σ)
    (enumeration : Enumeration)
    (action : Execution σ Unit) :
    Prop where
  outcome (progress : Progress σ) :
    (action progress).1 = (job.play enumeration progress.receiver).1
  receiver (progress : Progress σ) :
    (action progress).2.receiver = (job.play enumeration progress.receiver).2
  delivered (progress : Progress σ) (succeeds : (action progress).1 = .ok ()) :
    (action progress).2.rows.delivered =
      progress.rows.delivered + enumeration.bindings.length

/-! ## Executing a plan delivers what it enumerates -/

theorem run_all_append
    (deliver : Delivery σ)
    (first next : List Event)
    (state : σ) :
    deliver.all (first ++ next) state =
      (deliver.all first >>= fun _ => deliver.all next) state := by
  induction first generalizing state with
  | nil => rfl
  | cons event rest inductionHypothesis =>
      simp only [List.cons_append, Delivery.all, run_bind]
      cases deliver event state with
      | mk outcome later =>
          cases outcome with
          | error error => rfl
          | ok _ => exact (inductionHypothesis later).trans (run_bind _ _ _)

/-- Playing two enumerations one after the other plays the first, then the
second. -/
theorem run_play_append (job : Job σ) (first next : Enumeration) (state : σ) :
    job.play (first.append next) state =
      (job.play first >>= fun _ => job.play next) state := by
  obtain ⟨bindings, failure⟩ := first
  cases failure with
  | none =>
      simp only [play, Enumeration.append, List.map_append, run_bind,
        run_all_append]
      cases job.deliver.all (bindings.map job.plan.event) state with
      | mk outcome later => cases outcome <;> rfl
  | some error =>
      simp only [play, Enumeration.append, run_bind]
      cases job.deliver.all (bindings.map job.plan.event) state with
      | mk outcome later => cases outcome <;> rfl

namespace Plays

variable {job : Job σ}

/-- An execution that delivers nothing. -/
theorem nothing {action : Execution σ Unit}
    (quiet : ∀ progress, (action progress).1 = .ok () ∧
      (action progress).2.receiver = progress.receiver ∧
      (action progress).2.rows.delivered = progress.rows.delivered) :
    job.Plays {} action where
  outcome progress := (quiet progress).1
  receiver progress := (quiet progress).2.1
  delivered progress _ := (quiet progress).2.2

theorem fails (error : Error) : job.Plays ⟨[], some error⟩ (throw error) where
  outcome _ := rfl
  receiver _ := rfl
  delivered _ succeeds := by cases succeeds

/-- One execution after another delivers one enumeration after the other. -/
theorem append {first next : Enumeration} {action after : Execution σ Unit}
    (plays : job.Plays first action) (playsAfter : job.Plays next after) :
    job.Plays (first.append next) (action >>= fun _ => after) := by
  have split (progress : Progress σ) :
      ((action >>= fun _ => after) progress).1 =
          (job.play (first.append next) progress.receiver).1 ∧
        ((action >>= fun _ => after) progress).2.receiver =
          (job.play (first.append next) progress.receiver).2 := by
    rw [run_play_append, run_bind, run_bind]
    have outcome := plays.outcome progress
    have receiver := plays.receiver progress
    cases ran : action progress with
    | mk result later =>
        cases played : job.play first progress.receiver with
        | mk playedResult playedLater =>
            rw [ran, played] at outcome receiver
            simp only at outcome receiver
            subst outcome receiver
            cases result with
            | error error => exact ⟨rfl, rfl⟩
            | ok _ =>
                exact ⟨playsAfter.outcome later, playsAfter.receiver later⟩
  refine ⟨fun progress => (split progress).1,
    fun progress => (split progress).2, ?_⟩
  intro progress succeeds
  rw [run_bind] at succeeds ⊢
  have counted := plays.delivered progress
  cases ran : action progress with
  | mk result later =>
      rw [ran] at succeeds counted
      cases result with
      | error error => cases succeeds
      | ok _ =>
          -- An enumeration that is played to its end has no failure.
          have complete : first.failure = none := by
            have outcome := plays.outcome progress
            rw [ran, play, run_bind] at outcome
            cases failure : first.failure with
            | none => rfl
            | some error =>
                rw [failure] at outcome
                split at outcome <;> cases outcome
          have later := playsAfter.delivered later succeeds
          simp only [Enumeration.append, complete, List.length_append]
          rw [later, counted rfl, Nat.add_assoc]

/-- What an execution counts besides does not matter. -/
theorem count_then {enumeration : Enumeration} {update : Counters → Counters}
    {action : Execution σ Unit} (plays : job.Plays enumeration action) :
    job.Plays enumeration (Execution.count update >>= fun _ => action) where
  outcome progress :=
    plays.outcome { progress with counters := update progress.counters }
  receiver progress :=
    plays.receiver { progress with counters := update progress.counters }
  delivered progress :=
    plays.delivered { progress with counters := update progress.counters }

/-- A loop plays what its steps play. -/
theorem each
    {α : Type}
    {items : List α}
    {body : α → Enumeration}
    {action : α → Execution σ Unit}
    (plays : ∀ item, job.Plays (body item) (action item)) :
    job.Plays (.each items body) (items.forM action) := by
  induction items with
  | nil => exact nothing fun _ => ⟨rfl, rfl, rfl⟩
  | cons first rest inductionHypothesis =>
      exact (plays first).append inductionHypothesis

/-- An execution that depends on a value enumerates what depends on it. -/
theorem given
    {α : Type}
    {value : Except Error α}
    {body : α → Enumeration}
    {action : α → Execution σ Unit}
    (plays : ∀ item, job.Plays (body item) (action item)) :
    job.Plays (.given value body) (liftM value >>= action) := by
  cases value with
  | error error => exact fails error
  | ok item => exact plays item

end Plays

/-- Delivering a row counts it if the delivery succeeds. -/
theorem run_emit (job : Job σ) (vertices : List VertexId) (edges : List EdgeId)
    (progress : Progress σ) :
    job.emit vertices edges progress =
      match job.deliver (job.plan.event ⟨vertices, edges⟩)
        progress.receiver with
      | (.ok _, receiver) => (.ok (),
          { receiver
            counters :=
              { progress.counters with sink := progress.counters.sink + 1 }
            rows :=
              { progress.rows with delivered := progress.rows.delivered + 1 } })
      | (.error error, receiver) =>
          (.error error, { progress with receiver }) := by
  rw [emit, run_bind, Execution.send]
  simp only [Plan.event]
  cases job.deliver ⟨job.plan.rowKind, job.plan.row vertices edges⟩
    progress.receiver with
  | mk outcome later => cases outcome <;> rfl

/-- A row that is delivered is counted once, among the calls of the sink and
among the rows. -/
theorem counts_of_emit
    (job : Job σ)
    {vertices : List VertexId}
    {edges : List EdgeId}
    {progress : Progress σ}
    (succeeds : (job.emit vertices edges progress).1 = .ok ()) :
    (job.emit vertices edges progress).2.counters =
        { progress.counters with sink := progress.counters.sink + 1 } ∧
      (job.emit vertices edges progress).2.rows =
        { progress.rows with delivered := progress.rows.delivered + 1 } := by
  rw [run_emit] at succeeds ⊢
  cases delivery :
    job.deliver (job.plan.event ⟨vertices, edges⟩) progress.receiver with
  | mk outcome later =>
      rw [delivery] at succeeds
      cases outcome with
      | error error => cases succeeds
      | ok _ => exact ⟨rfl, rfl⟩

/-- Delivering a row plays its binding. -/
theorem plays_emit
    (job : Job σ)
    (vertices : List VertexId)
    (edges : List EdgeId) :
    job.Plays ⟨[⟨vertices, edges⟩], none⟩ (job.emit vertices edges) := by
  have played (state : σ) :
      job.play ⟨[⟨vertices, edges⟩], none⟩ state =
        match job.deliver (job.plan.event ⟨vertices, edges⟩) state with
        | (.ok _, receiver) => (.ok (), receiver)
        | (.error error, receiver) => (.error error, receiver) := by
    rw [play, run_bind, List.map_singleton, Delivery.all, run_bind]
    cases job.deliver (job.plan.event ⟨vertices, edges⟩) state with
    | mk outcome later => cases outcome <;> rfl
  constructor
  case outcome =>
    intro progress
    rw [run_emit, played]
    cases job.deliver (job.plan.event ⟨vertices, edges⟩) progress.receiver with
    | mk outcome later => cases outcome <;> rfl
  case receiver =>
    intro progress
    rw [run_emit, played]
    cases job.deliver (job.plan.event ⟨vertices, edges⟩) progress.receiver with
    | mk outcome later => cases outcome <;> rfl
  case delivered =>
    intro progress succeeds
    rw [(job.counts_of_emit succeeds).2]
    rfl

theorem plays_test
    (job : Job σ)
    (vertices : List VertexId)
    (edges : List EdgeId) :
    job.Plays ⟨job.plan.chosen job.walkable.graph vertices [] edges, none⟩
      (job.test vertices edges) := by
  rw [test, Plan.chosen]
  by_cases unconditional : job.plan.conditions.isEmpty
  · rw [if_pos unconditional,
      if_pos (by simp [List.isEmpty_iff.mp unconditional])]
    exact job.plays_emit vertices edges
  · rw [if_neg unconditional]
    refine Plays.count_then ?_
    split
    · exact job.plays_emit vertices edges
    · exact Plays.nothing fun _ => ⟨rfl, rfl, rfl⟩

/-- Choosing edges one relation at a time plays the choices in order. -/
theorem plays_choose
    (job : Job σ)
    (vertices : List VertexId)
    (choices : List (List EdgeId))
    (edges : List EdgeId) :
    job.Plays ⟨job.plan.chosen job.walkable.graph vertices choices edges, none⟩
      (job.choose vertices choices edges) := by
  induction choices generalizing edges with
  | nil => exact job.plays_test vertices edges
  | cons first rest inductionHypothesis =>
      rw [← Plan.each_chosen]
      exact Plays.each fun edge => inductionHypothesis (edges ++ [edge])

/-- Resolving the edges of a tuple plays its completions. -/
theorem plays_resolve (job : Job σ) (vertices : List VertexId) :
    job.Plays (job.plan.resolved job.walkable vertices)
      (job.resolve vertices) := by
  refine Plays.count_then ?_
  rw [mapM_liftM]
  exact Plays.given fun choices => job.plays_choose vertices choices []

/-- Extending a tuple stage by stage plays the bindings below it. -/
theorem plays_extend (job : Job σ) (stages : List (Stage × Option TypeId))
    (vertices : List VertexId) :
    job.Plays (job.plan.extended job.walkable stages vertices)
      (job.extend stages vertices) := by
  induction stages generalizing vertices with
  | nil => exact job.plays_resolve vertices
  | cons first rest inductionHypothesis =>
      refine Plays.count_then ?_
      exact Plays.given fun candidates => Plays.each fun vertex =>
        inductionHypothesis (vertices ++ [vertex])

/-- The targets that the scan tries from a source are had at no cost, save for a
counter if they cannot be had. -/
theorem plays_scanFrom
    (job : Job σ)
    (stage : Stage)
    (type : Option TypeId)
    (source : VertexId)
    {body : VertexId → Enumeration}
    {action : VertexId → Execution σ Unit}
    (plays : ∀ target, job.Plays (body target) (action target)) :
    job.Plays
      (.given (stage.intersection job.walkable [source]) fun candidates =>
        .each (candidates.filter (job.walkable.graph.hasType type)) body)
      (job.scanFrom stage type source >>=
        fun targets => targets.forM action) := by
  unfold scanFrom
  cases stage.intersection job.walkable [source] with
  | ok candidates => exact Plays.each plays
  | error error =>
      exact ⟨fun _ => rfl, fun _ => rfl, fun _ succeeds => by cases succeeds⟩

theorem plays_scan
    (job : Job σ)
    (first : Rule)
    (stage : Stage)
    (sourceType targetType : Option TypeId)
    (rest : List (Stage × Option TypeId)) :
    job.Plays
      (job.plan.scanned job.walkable first stage sourceType targetType rest)
      (job.scan first stage sourceType targetType rest) := by
  have counted : job.Plays {} (countScan : Execution σ Unit) :=
    Plays.nothing fun _ => ⟨rfl, rfl, rfl⟩
  rw [← Enumeration.append_nothing
    (job.plan.scanned job.walkable first stage sourceType targetType rest)]
  refine Plays.append (Plays.each fun source => ?_) counted
  exact job.plays_scanFrom stage targetType source fun target =>
    (job.plays_extend rest [source, target]).count_then

/-- Executing a plan delivers the events of what the plan enumerates. -/
theorem plays_run (job : Job σ) :
    job.Plays (job.plan.enumeration job.walkable) job.run := by
  unfold run Plan.enumeration
  cases job.plan.shapeViolation? with
  | some violation => exact Plays.fails _
  | none =>
      have idle : job.Plays {} (pure ()) :=
        Plays.nothing fun _ => ⟨rfl, rfl, rfl⟩
      match job.plan.stages, job.plan.types with
      | (first :: others) :: rest, sourceType :: targetType :: types =>
          exact job.plays_scan first (first :: others) sourceType targetType
            (rest.zip types)
      | [], _ => exact idle
      | [] :: _, _ => exact idle
      | (_ :: _) :: _, [] => exact idle
      | (_ :: _) :: _, [_] => exact idle

end Job

end DeltaGraph
