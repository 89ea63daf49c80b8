import DeltaGraph.Proofs.Execution.Delivery

/-!
# Rows that fail a condition

Without its conditions a plan enumerates more bindings.  An execution that
succeeds delivers or rejects each of them, so that the numbers of delivered and
rejected rows add up to the number of bindings that were tried.
-/

namespace DeltaGraph

/-- The rows that were tested. -/
def RowCounts.tried (counts : RowCounts) : Nat :=
  counts.delivered + counts.rejected

/-- The plan that rejects nothing. -/
def Plan.unconditional (plan : Plan) : Plan :=
  { plan with conditions := [] }

namespace Execution

variable {σ : Type}

/-- One execution after another succeeds only if both do. -/
theorem run_then_of_ok {action after : Execution σ Unit} {progress : Progress σ}
    (succeeds : ((action >>= fun _ => after) progress).1 = .ok ()) :
    (action progress).1 = .ok () ∧ (after (action progress).2).1 = .ok () ∧
      ((action >>= fun _ => after) progress).2 =
        (after (action progress).2).2 := by
  rw [run_bind] at succeeds ⊢
  cases ran : action progress with
  | mk outcome later =>
      rw [ran] at succeeds
      cases outcome with
      | error error => cases succeeds
      | ok _ => exact ⟨rfl, succeeds, rfl⟩

/-- If the execution succeeds, it delivers or rejects each binding of an
enumeration that does not fail. -/
structure Tries
    (candidates : Enumeration)
    (action : Execution σ Unit) : Prop where
  complete (progress : Progress σ) (succeeds : (action progress).1 = .ok ()) :
    candidates.failure = none
  tried (progress : Progress σ) (succeeds : (action progress).1 = .ok ()) :
    (action progress).2.rows.tried =
      progress.rows.tried + candidates.bindings.length

namespace Tries

theorem nothing
    {action : Execution σ Unit}
    (quiet : ∀ progress, (action progress).2.rows = progress.rows) :
    Tries {} action where
  complete _ _ := rfl
  tried progress _ := by
    rw [quiet progress]
    rfl

theorem fails (enumeration : Enumeration) (error : Error) :
    Tries enumeration (throw error : Execution σ Unit) where
  complete _ succeeds := by cases succeeds
  tried _ succeeds := by cases succeeds

/-- What is tried by two actions one after the other is what both try. -/
theorem append {first next : Enumeration} {action after : Execution σ Unit}
    (tries : Tries first action) (triesAfter : Tries next after) :
    Tries (first.append next) (action >>= fun _ => after) := by
  constructor
  case complete =>
    intro progress succeeds
    obtain ⟨here, later, _⟩ := run_then_of_ok succeeds
    rw [Enumeration.append_of_complete (tries.complete _ here)
      (triesAfter.complete _ later)]
  case tried =>
    intro progress succeeds
    obtain ⟨here, later, reached⟩ := run_then_of_ok succeeds
    rw [reached, triesAfter.tried _ later, tries.tried _ here,
      Enumeration.append_of_complete (tries.complete _ here)
        (triesAfter.complete _ later),
      List.length_append, Nat.add_assoc]

/-- Counting work before an action changes nothing about what it tries. -/
theorem count_then {candidates : Enumeration} {update : Counters → Counters}
    {action : Execution σ Unit} (tries : Tries candidates action) :
    Tries candidates (count update >>= fun _ => action) where
  complete progress :=
    tries.complete { progress with counters := update progress.counters }
  tried progress :=
    tries.tried { progress with counters := update progress.counters }

/-- A loop tries what its steps try. -/
theorem each
    {α : Type}
    {items : List α}
    {body : α → Enumeration}
    {action : α → Execution σ Unit}
    (tries : ∀ item, Tries (body item) (action item)) :
    Tries (.each items body) (items.forM action) := by
  induction items with
  | nil => exact nothing fun _ => rfl
  | cons first rest inductionHypothesis =>
      exact (tries first).append inductionHypothesis

theorem given
    {α : Type}
    {value : Except Error α}
    {body : α → Enumeration}
    {action : α → Execution σ Unit}
    (tries : ∀ item, Tries (body item) (action item)) :
    Tries (.given value body) (liftM value >>= action) := by
  cases value with
  | error error => exact fails _ error
  | ok item => exact tries item

end Tries

end Execution

namespace Job

open Execution

variable {σ : Type}

/-- Handing on a row tries one row. -/
theorem tries_emit
    (job : Job σ)
    (vertices : List VertexId)
    (edges : List EdgeId) :
    Tries ⟨[⟨vertices, edges⟩], none⟩ (job.emit vertices edges) where
  complete _ _ := rfl
  tried progress succeeds := by
    rw [(job.counts_of_emit succeeds).2]
    exact Nat.add_right_comm _ _ _

/-- A binding that is tested is delivered or rejected. -/
theorem tries_test
    (job : Job σ)
    (vertices : List VertexId)
    (edges : List EdgeId) :
    Tries ⟨[⟨vertices, edges⟩], none⟩ (job.test vertices edges) := by
  rw [test]
  split
  · exact job.tries_emit vertices edges
  · refine Tries.count_then ?_
    split
    · exact job.tries_emit vertices edges
    · exact ⟨fun _ _ => rfl, fun _ _ => rfl⟩

/-- Choosing edges tries every choice. -/
theorem tries_choose
    (job : Job σ)
    (vertices : List VertexId)
    (choices : List (List EdgeId))
    (edges : List EdgeId) :
    Tries ⟨job.plan.unconditional.chosen job.walkable.graph vertices choices
      edges, none⟩
      (job.choose vertices choices edges) := by
  induction choices generalizing edges with
  | nil => exact job.tries_test vertices edges
  | cons first rest inductionHypothesis =>
      rw [← Plan.each_chosen]
      exact Tries.each fun edge => inductionHypothesis (edges ++ [edge])

theorem tries_resolve (job : Job σ) (vertices : List VertexId) :
    Tries (job.plan.unconditional.resolved job.walkable vertices)
      (job.resolve vertices) := by
  refine Tries.count_then ?_
  rw [mapM_liftM]
  exact Tries.given fun choices => job.tries_choose vertices choices []

/-- Extending a tuple tries every binding below it that the plan has without its
conditions. -/
theorem tries_extend (job : Job σ) (stages : List (Stage × Option TypeId))
    (vertices : List VertexId) :
    Tries (job.plan.unconditional.extended job.walkable stages vertices)
      (job.extend stages vertices) := by
  induction stages generalizing vertices with
  | nil => exact job.tries_resolve vertices
  | cons first rest inductionHypothesis =>
      refine Tries.count_then ?_
      exact Tries.given fun candidates => Tries.each fun vertex =>
        inductionHypothesis (vertices ++ [vertex])

theorem tries_scanFrom
    (job : Job σ)
    (stage : Stage)
    (type : Option TypeId)
    (source : VertexId)
    {body : VertexId → Enumeration}
    {action : VertexId → Execution σ Unit}
    (tries : ∀ target, Tries (body target) (action target)) :
    Tries
      (.given (stage.intersection job.walkable [source]) fun candidates =>
        .each (candidates.filter (job.walkable.graph.hasType type)) body)
      (job.scanFrom stage type source >>=
        fun targets => targets.forM action) := by
  unfold scanFrom
  cases stage.intersection job.walkable [source] with
  | ok candidates => exact Tries.each tries
  | error error =>
      constructor
      case complete =>
        intro _ succeeds
        cases succeeds
      case tried =>
        intro _ succeeds
        cases succeeds

/-- A scan tries every binding that the plan has without its conditions. -/
theorem tries_scan
    (job : Job σ)
    (first : Rule)
    (stage : Stage)
    (sourceType targetType : Option TypeId)
    (rest : List (Stage × Option TypeId)) :
    Tries (job.plan.unconditional.scanned job.walkable first stage sourceType
      targetType rest)
      (job.scan first stage sourceType targetType rest) := by
  have counted : Tries {} (countScan : Execution σ Unit) :=
    Tries.nothing fun _ => rfl
  rw [← Enumeration.append_nothing
    (job.plan.unconditional.scanned job.walkable first stage sourceType
      targetType rest)]
  refine Tries.append (Tries.each fun source => ?_) counted
  exact job.tries_scanFrom stage targetType source fun target =>
    (job.tries_extend rest [source, target]).count_then

/-- An execution tries the bindings that the plan enumerates without its
conditions. -/
theorem tries_run (job : Job σ) :
    Tries (job.plan.unconditional.enumeration job.walkable) job.run := by
  have shape :
      job.plan.unconditional.shapeViolation? = job.plan.shapeViolation? := rfl
  unfold run Plan.enumeration
  rw [shape]
  cases job.plan.shapeViolation? with
  | some violation => exact Tries.fails _ _
  | none =>
      have idle : Tries {} (pure () : Execution σ Unit) :=
        Tries.nothing fun _ => rfl
      have stages : job.plan.unconditional.stages = job.plan.stages := rfl
      have types : job.plan.unconditional.types = job.plan.types := rfl
      rw [stages, types]
      match job.plan.stages, job.plan.types with
      | (first :: others) :: rest, sourceType :: targetType :: types =>
          exact job.tries_scan first (first :: others) sourceType targetType
            (rest.zip types)
      | [], _ => exact idle
      | [] :: _, _ => exact idle
      | (_ :: _) :: _, [] => exact idle
      | (_ :: _) :: _, [_] => exact idle

end Job

namespace Plan.WellFormed

variable {plan other : Plan} {graph now : Graph}

/-- A well-formed plan rejects the bindings that it tries and does not
deliver. -/
theorem counts_eq
    (wellFormed : plan.WellFormed)
    (sound : graph.Sound)
    {σ : Type}
    {deliver : Delivery σ}
    {receiver : σ}
    {counters : Counters}
    {counts : RowCounts}
    (succeeds :
      ((Job.mk plan graph.indexed deliver).execute receiver counters).1 =
        .ok counts) :
    counts.delivered = (plan.events graph).length ∧
      counts.delivered + counts.rejected =
        (plan.unconditional.enumeration graph.walkable).bindings.length := by
  have delivers := wellFormed.delivers sound deliver
  constructor
  · cases delivery : (deliver.all (plan.events graph) receiver).1 with
    | error error =>
        rw [delivers.failure counters delivery] at succeeds
        cases succeeds
    | ok _ =>
        obtain ⟨found, same, delivered⟩ := delivers.success counters delivery
        rw [same] at succeeds
        cases succeeds
        exact delivered
  · have tries := (Job.mk plan graph.indexed deliver).tries_run
    obtain ⟨progress, ran, rfl⟩ := Job.exists_run_of_execute succeeds
    have tried := tries.tried _ (congrArg Prod.fst ran)
    rw [ran, graph.indexed_eq_walkable] at tried
    exact tried.trans (Nat.zero_add _)

/-- Plans with the same events that try equally many bindings are executed
alike. -/
theorem execute_alike
    (wellFormed : plan.WellFormed)
    (otherWellFormed : other.WellFormed)
    (sound : graph.Sound)
    (nowSound : now.Sound)
    (events : plan.events graph = other.events now)
    (tried : (plan.unconditional.enumeration graph.walkable).bindings.length =
      (other.unconditional.enumeration now.walkable).bindings.length)
    {σ : Type}
    (deliver : Delivery σ)
    (receiver : σ)
    (counters others : Counters) :
    ((Job.mk plan graph.indexed deliver).execute receiver counters).1 =
        ((Job.mk other now.indexed deliver).execute receiver others).1 ∧
      ((Job.mk plan graph.indexed deliver).execute receiver counters).2.1 =
        ((Job.mk other now.indexed deliver).execute receiver others).2.1 := by
  have delivers := wellFormed.delivers sound deliver
  have otherDelivers := otherWellFormed.delivers nowSound deliver
  rw [← events] at otherDelivers
  refine ⟨?_, (delivers.receiver receiver counters).trans
    (otherDelivers.receiver receiver others).symm⟩
  cases delivery : (deliver.all (plan.events graph) receiver).1 with
  | error error =>
      rw [delivers.failure counters delivery,
        otherDelivers.failure others delivery]
  | ok _ =>
      obtain ⟨counts, outcome, _⟩ := delivers.success counters delivery
      obtain ⟨otherCounts, otherOutcome, _⟩ :=
        otherDelivers.success others delivery
      obtain ⟨delivered, total⟩ := wellFormed.counts_eq sound outcome
      obtain ⟨otherDelivered, otherTotal⟩ :=
        otherWellFormed.counts_eq nowSound otherOutcome
      rw [outcome, otherOutcome]
      rw [← events, ← delivered] at otherDelivered
      have rejected : counts.rejected = otherCounts.rejected := by omega
      cases counts
      cases otherCounts
      cases otherDelivered
      cases rejected
      rfl

end Plan.WellFormed

end DeltaGraph
