import DeltaGraph.Proofs.Execution.PartialTuples
import DeltaGraph.Proofs.Execution.Pulling
import Mathlib.Algebra.BigOperators.Intervals

/-!
# The counters of operators

An execution that succeeds has counted what there was to do.  The scan was asked
for each pair and once more, every further stage was entered with each partial
tuple, each complete tuple was resolved, each row was tested if there are
conditions, and each delivered row was sent.
-/

namespace DeltaGraph

/-- The rows that the conditions of the plan were asked about. -/
def Plan.tested (plan : Plan) (rows : RowCounts) : Nat :=
  if plan.conditions.isEmpty then 0 else rows.tried

/-- What was counted between two times: calls of the operators that bind and
resolve, as many as given, and calls of the filter and the sink in step with the
rows. -/
structure Progress.Counts
    {σ : Type}
    (plan : Plan)
    (scanned entered resolved : Nat)
    (before after : Progress σ) : Prop where
  scan : after.counters.scan = before.counters.scan + scanned
  extend : after.counters.extend = before.counters.extend + entered
  resolve : after.counters.resolve = before.counters.resolve + resolved
  filter : after.counters.filter + plan.tested before.rows =
    before.counters.filter + plan.tested after.rows
  sink : after.counters.sink + before.rows.delivered =
    before.counters.sink + after.rows.delivered

namespace Execution

variable {σ : Type} {plan : Plan} {scanned entered resolved : Nat}

/-- If the execution succeeds, it counts so many calls. -/
def Works
    (plan : Plan)
    (scanned entered resolved : Nat)
    (action : Execution σ Unit) : Prop :=
  ∀ progress, (action progress).1 = .ok () →
    progress.Counts plan scanned entered resolved (action progress).2

theorem run_count_then
    (update : Counters → Counters)
    (action : Execution σ Unit)
    (progress : Progress σ) :
    (count update >>= fun _ => action) progress =
      action { progress with counters := update progress.counters } := rfl

namespace Works

theorem nothing
    {action : Execution σ Unit}
    (quiet : ∀ progress, (action progress).2 = progress) :
    Works plan 0 0 0 action := by
  intro progress _
  rw [quiet progress]
  exact ⟨rfl, rfl, rfl, rfl, rfl⟩

theorem fails (error : Error) :
    Works plan scanned entered resolved (throw error : Execution σ Unit) :=
  fun _ succeeds => by cases succeeds

theorem append
    {action after : Execution σ Unit}
    {scannedAfter enteredAfter resolvedAfter : Nat}
    (works : Works plan scanned entered resolved action)
    (worksAfter : Works plan scannedAfter enteredAfter resolvedAfter after) :
    Works plan (scanned + scannedAfter) (entered + enteredAfter)
      (resolved + resolvedAfter)
      (action >>= fun _ => after) := by
  intro progress succeeds
  obtain ⟨here, later, reached⟩ := run_then_of_ok succeeds
  rw [reached]
  have first := works progress here
  have second := worksAfter (action progress).2 later
  constructor
  case scan => rw [second.scan, first.scan, Nat.add_assoc]
  case extend => rw [second.extend, first.extend, Nat.add_assoc]
  case resolve => rw [second.resolve, first.resolve, Nat.add_assoc]
  case filter =>
    have here := first.filter
    have there := second.filter
    omega
  case sink =>
    have here := first.sink
    have there := second.sink
    omega

theorem each
    {α : Type}
    (items : List α)
    {scanned entered resolved : α → Nat}
    {action : α → Execution σ Unit}
    (works : ∀ item,
      Works plan (scanned item) (entered item) (resolved item) (action item)) :
    Works plan (items.map scanned).sum (items.map entered).sum
      (items.map resolved).sum
      (items.forM action) := by
  induction items with
  | nil => exact nothing fun _ => rfl
  | cons first rest inductionHypothesis =>
      simp only [List.map_cons, List.sum_cons]
      exact (works first).append inductionHypothesis

/-- Actions that call no operator that binds or resolves. -/
theorem each_quiet
    {α : Type}
    {items : List α}
    {action : α → Execution σ Unit}
    (works : ∀ item, Works plan 0 0 0 (action item)) :
    Works plan 0 0 0 (items.forM action) := by
  have all := each items works
  simpa using all

theorem given
    {α : Type}
    {value : Except Error α}
    {action : α → Execution σ Unit}
    (works : ∀ item, value = .ok item →
      Works plan scanned entered resolved (action item)) :
    Works plan scanned entered resolved (liftM value >>= action) := by
  cases value with
  | error error => exact fails error
  | ok item => exact works item rfl

end Works

end Execution

namespace Job

open Execution

variable {σ : Type}

/-- A row that is tested is counted by the filter if there are conditions, and
by the sink if it is delivered. -/
theorem works_test
    (job : Job σ)
    (vertices : List VertexId)
    (edges : List EdgeId) :
    Works job.plan 0 0 0 (job.test vertices edges) := by
  intro progress succeeds
  rw [test] at succeeds ⊢
  by_cases unconditional : job.plan.conditions.isEmpty
  · have tested (rows : RowCounts) : job.plan.tested rows = 0 :=
      if_pos unconditional
    rw [if_pos unconditional] at succeeds ⊢
    obtain ⟨counters, rows⟩ := job.counts_of_emit succeeds
    constructor <;> simp only [counters, rows, tested] <;> omega
  · have tested (rows : RowCounts) :
        job.plan.tested rows = rows.delivered + rows.rejected :=
      if_neg unconditional
    rw [if_neg unconditional, run_count_then] at succeeds ⊢
    split at succeeds
    · rename_i passes
      obtain ⟨counters, rows⟩ := job.counts_of_emit succeeds
      rw [if_pos passes]
      constructor <;> simp only [counters, rows, tested] <;> omega
    · rename_i fails
      have noted (progress : Progress σ) :
          ((note fun rows =>
              { rows with rejected := rows.rejected + 1 } : Execution σ Unit)
            progress).2 = { progress with
              rows :=
                { progress.rows with rejected := progress.rows.rejected +
                  1 } } := rfl
      rw [if_neg fails, noted]
      constructor <;> simp only [tested] <;> omega

theorem works_choose
    (job : Job σ)
    (vertices : List VertexId)
    (choices : List (List EdgeId))
    (edges : List EdgeId) :
    Works job.plan 0 0 0 (job.choose vertices choices edges) := by
  induction choices generalizing edges with
  | nil => exact job.works_test vertices edges
  | cons first rest inductionHypothesis =>
      exact Works.each_quiet fun edge => inductionHypothesis (edges ++ [edge])

theorem works_resolve (job : Job σ) (vertices : List VertexId) :
    Works job.plan 0 0 1 (job.resolve vertices) := by
  have counted : Works job.plan 0 0 1 (count fun counters =>
      { counters with resolve := counters.resolve + 1 } : Execution σ Unit) :=
    fun _ _ => ⟨rfl, rfl, rfl, rfl, rfl⟩
  refine counted.append (?_ : Works job.plan 0 0 0 _)
  rw [mapM_liftM]
  exact Works.given fun choices _ => job.works_choose vertices choices []

end Job

/-! ## Binding and scanning -/

namespace Plan

/-- The tuple has a pair of vertices at least, and some of the slots are
left. -/
def enters (slots : Nat) (tuple : List VertexId) : Bool :=
  2 ≤ tuple.length && tuple.length < slots

/-- Of the tuples that go on with the vertices, only these have as many. -/
theorem countP_partials_shortest
    (graph : Graph)
    (stages : List (Stage × Option TypeId))
    (vertices : List VertexId) :
    (partials graph stages vertices).countP (·.length = vertices.length) =
      1 := by
  cases stages with
  | nil => simp [partials]
  | cons first rest =>
      rw [partials, List.countP_cons, List.countP_eq_zero.mpr, if_pos (by simp)]
      intro tuple member
      split at member
      · obtain ⟨vertex, _, longer⟩ := List.mem_flatMap.mp member
        have long := (prefix_of_mem_partials longer).length_le
        rw [List.length_append, List.length_singleton] at long
        simp only [decide_eq_true_eq]
        omega
      · cases member

/-- The tuples that go on with the vertices are these and those with one of the
vertices that the next stage admits. -/
theorem exists_partials_cons
    {graph : Graph}
    (sound : graph.Sound)
    (stage : Stage)
    (type : Option TypeId)
    (rest : List (Stage × Option TypeId))
    (vertices : List VertexId) :
    ∃ longer,
      partials graph ((stage, type) :: rest) vertices = vertices :: longer ∧
      ∀ candidates, stage.admissible graph.walkable vertices = .ok candidates →
        longer = (candidates.filter (graph.hasType type)).flatMap fun vertex =>
          partials graph rest (vertices ++ [vertex]) := by
  refine ⟨_, rfl, fun candidates admitted => ?_⟩
  rw [Stage.common_eq_admissible _ sound, admitted]
  rfl

end Plan

namespace Job

open Execution Plan

variable {σ : Type} {plan : Plan} {graph : Graph} {deliver : Delivery σ}
  {slots : Nat}

/-- Every tuple that enters a further stage is counted there, and every complete
one is counted by the resolver. -/
theorem works_extend
    (plan : Plan)
    (deliver : Delivery σ)
    (sound : graph.Sound)
    (stages : List (Stage × Option TypeId))
    (vertices : List VertexId)
    (pair : 2 ≤ vertices.length)
    (whole : vertices.length + stages.length = slots) :
    Works plan 0 ((partials graph stages vertices).countP (enters slots))
      ((partials graph stages vertices).countP (·.length = slots))
      ((Job.mk plan graph.walkable deliver).extend stages vertices) := by
  induction stages generalizing vertices with
  | nil =>
      have last : vertices.length = slots := whole
      have works := works_resolve ⟨plan, graph.walkable, deliver⟩ vertices
      simpa [extend, partials, enters, last] using works
  | cons first rest inductionHypothesis =>
      obtain ⟨stage, type⟩ := first
      rw [List.length_cons] at whole
      obtain ⟨longer, split, admits⟩ :=
        exists_partials_cons sound stage type rest vertices
      have counted : Works plan 0 1 0 (count fun counters =>
          { counters with extend := counters.extend + 1 } : Execution σ Unit) :=
        fun _ _ => ⟨rfl, rfl, rfl, rfl, rfl⟩
      have later :
          Works plan 0 (longer.countP (enters slots))
            (longer.countP (·.length = slots))
          (liftM (stage.admissible graph.walkable vertices) >>=
            fun candidates =>
              (candidates.filter (graph.hasType type)).forM fun vertex =>
                (Job.mk plan graph.walkable deliver).extend rest
                  (vertices ++ [vertex])) := by
        refine Works.given fun candidates admitted => ?_
        have each :=
          Works.each (candidates.filter (graph.hasType type)) fun vertex =>
            inductionHypothesis (vertices ++ [vertex]) (by simp; omega)
              (by simp; omega)
        rw [admits candidates admitted]
        simpa [List.countP_flatMap, Function.comp_def] using each
      have here : enters slots vertices := by
        simp only [enters, Bool.and_eq_true, decide_eq_true_eq]
        omega
      have short : ¬ decide (vertices.length = slots) := by
        simp only [decide_eq_true_eq]
        omega
      have works := counted.append later
      rw [Nat.zero_add, Nat.zero_add, Nat.add_comm 1] at works
      rw [split, List.countP_cons_of_pos here,
        List.countP_cons_of_neg
          (p := fun tuple : List VertexId => decide (tuple.length = slots))
          short]
      exact works

/-- Calls of all further stages are counted together. -/
theorem countP_enters (slots : Nat) (tuples : List (List VertexId)) :
    tuples.countP (enters slots) =
      ∑ count ∈ Finset.Ico 2 slots, tuples.countP (·.length = count) := by
  induction tuples with
  | nil => simp
  | cons tuple rest inductionHypothesis =>
      simp only [List.countP_cons, Finset.sum_add_distrib, inductionHypothesis,
        enters, Bool.and_eq_true, decide_eq_true_eq, Finset.sum_ite_eq,
        Finset.mem_Ico]

theorem works_countScan : Works plan 1 0 0 (countScan : Execution σ Unit) :=
  fun _ _ => ⟨rfl, rfl, rfl, rfl, rfl⟩

/-- The pairs from a source are counted one by one. -/
theorem works_source
    (plan : Plan)
    (deliver : Delivery σ)
    (sound : graph.Sound)
    {stage : Stage}
    (nonempty : stage.isEmpty = false)
    (type : Option TypeId)
    (rest : List (Stage × Option TypeId))
    (whole : 2 + rest.length = slots)
    (source : VertexId) :
    Works plan
      ((partials graph ((stage, type) :: rest) [source]).countP (·.length = 2))
      ((partials graph ((stage, type) :: rest) [source]).countP (enters slots))
      ((partials graph ((stage, type) :: rest) [source]).countP
        (·.length = slots))
      (do
        let targets ←
          (Job.mk plan graph.walkable deliver).scanFrom stage type source
        targets.forM fun target => do
          countScan
          (Job.mk plan graph.walkable deliver).extend rest
            [source, target]) := by
  unfold scanFrom
  cases found : stage.intersection graph.walkable [source] with
  | error error => exact fun _ succeeds => by cases succeeds
  | ok candidates =>
      have admitted :
          stage.admissible graph.walkable [source] = .ok candidates := by
        rw [Stage.admissible, if_neg (by simp [nonempty]), found]
      obtain ⟨longer, split, admits⟩ :=
        exists_partials_cons sound stage type rest [source]
      have each :=
        Works.each (candidates.filter (graph.hasType type)) fun target =>
          works_countScan.append
            (works_extend plan deliver sound rest [source, target]
              (Nat.le_refl 2) whole)
      have shortest (target : VertexId) :
          (partials graph rest [source, target]).countP (·.length = 2) = 1 :=
        countP_partials_shortest graph rest [source, target]
      have alone : 1 ≠ slots := by omega
      have here : graph.walkable.graph = graph := rfl
      rw [split, admits candidates admitted]
      simpa [List.countP_flatMap, Function.comp_def, enters, alone, shortest,
        here] using each

/-- A run counts each pair and one more request, each further tuple and each
complete one. -/
theorem works_run (sound : graph.Sound) (shaped : plan.shapeViolation? = none) :
    Works plan ((plan.partialTuples graph).countP (·.length = 2) + 1)
      ((plan.partialTuples graph).countP (enters plan.order.length))
      ((plan.partialTuples graph).countP (·.length = plan.order.length))
      (Job.mk plan graph.walkable deliver).run := by
  obtain ⟨first, others, rest, sourceType, targetType, types, stages, typed⟩ :=
    exists_start shaped
  have size := length_steps shaped
  have steps :
      plan.steps = (first :: others, targetType) :: rest.zip types := by
    rw [Plan.steps, stages, typed]
    rfl
  rw [steps, List.length_cons] at size
  have whole : 2 + (rest.zip types).length = plan.order.length := by omega
  have nonempty : (first :: others).isEmpty = false := rfl
  have each := Works.each
    ((graph.sources first.version first.direction).filter
      (graph.hasType sourceType))
    (works_source plan deliver sound nonempty targetType (rest.zip types) whole)
  have works := each.append works_countScan
  have listed : plan.partialTuples graph =
      ((graph.sources first.version first.direction).filter
        (graph.hasType sourceType)).flatMap
        fun source =>
          partials graph ((first :: others, targetType) :: rest.zip types)
            [source] := by
    rw [partialTuples, stages, typed]
    rfl
  have here : graph.walkable.graph = graph := rfl
  rw [run, shaped, listed]
  simp only [stages, typed, scan]
  simpa [List.countP_flatMap, Function.comp_def, here] using works

end Job

namespace Plan

/-- The counters have grown by the work that the plan has to do on the graph: by
pairs and one more request, by partial tuples, by complete ones, by rows and by
delivered rows. -/
structure CountsWork (plan : Plan) (graph : Graph) (before after : Counters)
    (rows : RowCounts) : Prop where
  scan : after.scan = before.scan + (plan.tupleCount graph 2 + 1)
  extend : after.extend = before.extend +
    ∑ slots ∈ Finset.Ico 2 plan.order.length, plan.tupleCount graph slots
  resolve :
    after.resolve = before.resolve + plan.tupleCount graph plan.order.length
  filter : after.filter = before.filter +
    if plan.conditions.isEmpty then 0 else plan.rowCount graph
  sink : after.sink = before.sink + rows.delivered
  rows : rows.delivered + rows.rejected = plan.rowCount graph

section

variable {plan : Plan} {graph : Graph}

/-- What enters the further stages are the tuples of two vertices or more that
are not complete. -/
theorem sum_tupleCount_eq_countP
    (sound : graph.Sound)
    (shaped : plan.shapeViolation? = none)
    (complete : (plan.tuples graph).failure = none) :
    ∑ slots ∈ Finset.Ico 2 plan.order.length, plan.tupleCount graph slots =
      (plan.partialTuples graph).countP (enters plan.order.length) := by
  rw [Job.countP_enters]
  refine Finset.sum_congr rfl fun slots member => ?_
  obtain ⟨pair, inside⟩ := Finset.mem_Ico.mp member
  exact tupleCount_eq_countP sound shaped complete pair inside.le

variable {σ : Type} {deliver : Delivery σ} {progress final : Progress σ}

theorem shape_of_run
    (ran : (Job.mk plan graph.walkable deliver).run progress =
      (.ok (), final)) :
    plan.shapeViolation? = none := by
  cases shape : plan.shapeViolation? with
  | none => rfl
  | some violation =>
      rw [Job.run, shape] at ran
      cases ran

/-- A run that starts without rows and succeeds counts the work of the plan. -/
theorem countsWork_of_run
    (sound : graph.Sound)
    (fresh : progress.rows = {})
    (ran : (Job.mk plan graph.walkable deliver).run progress =
      (.ok (), final)) :
    plan.CountsWork graph progress.counters final.counters final.rows := by
  have shaped := shape_of_run ran
  have several := (shape_of_none shaped).1
  have succeeds := congrArg Prod.fst ran
  have tries := (Job.mk plan graph.walkable deliver).tries_run
  have complete := tries.complete progress succeeds
  have tried := tries.tried progress succeeds
  have enumerated :
      plan.unconditional.enumeration graph.walkable = plan.tuples graph :=
    unconditional_enumeration_eq sound shaped
  rw [enumerated] at complete tried
  have works := Job.works_run sound shaped progress succeeds
  rw [ran] at tried works
  have total :
      final.rows.delivered + final.rows.rejected = plan.rowCount graph := by
    rw [rowCount_eq_length sound shaped complete]
    rw [fresh] at tried
    exact tried.trans (Nat.zero_add _)
  constructor
  case scan =>
    rw [tupleCount_eq_countP sound shaped complete (Nat.le_refl 2) several]
    exact works.scan
  case extend =>
    rw [sum_tupleCount_eq_countP sound shaped complete]
    exact works.extend
  case resolve =>
    rw [tupleCount_eq_countP sound shaped complete several (Nat.le_refl _)]
    exact works.resolve
  case filter =>
    have start : plan.tested progress.rows = 0 := by
      rw [fresh, tested]
      split <;> rfl
    have told : plan.tested final.rows =
        if plan.conditions.isEmpty then 0 else plan.rowCount graph := by
      rw [tested, RowCounts.tried, total]
    have filter := works.filter
    rw [start, told] at filter
    exact filter
  case sink =>
    have sink := works.sink
    rw [fresh] at sink
    exact sink
  case rows => exact total

end

/-- An execution that succeeds counts the work of the plan, and so does pulling
it. -/
theorem counts_work
    (plan : Plan)
    {graph : Graph}
    (reachable : graph.Reachable)
    {σ : Type}
    {deliver : Delivery σ}
    {receiver last : σ}
    {before after : Counters}
    {rows : RowCounts}
    (executed : (Job.mk plan graph.indexed deliver).execute receiver before =
      (.ok rows, last, after)) :
    plan.CountsWork graph before after rows ∧
      (Job.mk plan graph.indexed deliver).pull
        { receiver, counters := before } =
        (.ok (), { receiver := last, counters := after, rows }) := by
  obtain ⟨progress, ran, rfl⟩ :=
    Job.exists_run_of_execute (congrArg Prod.fst executed)
  rw [Job.execute, ran] at executed
  cases executed
  refine ⟨?_, by rw [Job.pull_eq_run, ran]⟩
  rw [graph.indexed_eq_walkable] at ran
  exact countsWork_of_run reachable.sound rfl ran

end Plan

/-- Four pairs, two of which go on; one of the complete tuples has parallel
edges. -/
theorem Plan.counts_work_of_path :
    let plan : Plan :=
      { order := ["a", "b", "c"]
        types := [none, none, none]
        stages :=
          [[⟨0, .forward, .permanent, none⟩], [⟨1, .forward, .permanent, none⟩]]
        lookups :=
          [⟨"r", 0, 1, none, .permanent⟩, ⟨"s", 1, 2, none, .permanent⟩]
        conditions := []
        columns := [0, 1, 2] }
    let graph := ((((Graph.empty.stage (.addEdge ⟨⟨1⟩, ⟨2⟩, ⟨1⟩⟩ [])).stage
      (.addEdge ⟨⟨2⟩, ⟨3⟩, ⟨1⟩⟩ [])).stage (.addEdge ⟨⟨2⟩, ⟨3⟩, ⟨2⟩⟩ [])).stage
      (.addEdge ⟨⟨2⟩, ⟨4⟩, ⟨1⟩⟩ [])).stage (.addEdge ⟨⟨5⟩, ⟨6⟩, ⟨1⟩⟩ [])
      |>.commit.2
    let job : Job Unit := ⟨plan, graph.indexed, fun _ _ => (.ok (), ())⟩
    graph.Reachable ∧ job.execute () {} =
        (.ok ⟨3, 0⟩, (), { scan := 5, extend := 4, resolve := 2, sink := 3 }) ∧
      plan.tupleCount graph 2 = 4 ∧ plan.tupleCount graph 3 = 2 ∧
      plan.rowCount graph = 3 := by
  intro plan graph job
  have reachable : graph.Reachable :=
    .commit (.stage _ (.stage _ (.stage _ (.stage _ (.stage _ .empty)))))
  have executed : job.execute () {} =
      (.ok ⟨3, 0⟩, (),
        { scan := 5, extend := 4, resolve := 2, sink := 3 }) := by
        decide +kernel
  obtain ⟨counts, _⟩ := Plan.counts_work plan reachable executed
  have scan : 5 = 0 + (plan.tupleCount graph 2 + 1) := counts.scan
  have resolve : 2 = 0 + plan.tupleCount graph 3 := counts.resolve
  have rows : 3 + 0 = plan.rowCount graph := counts.rows
  exact ⟨reachable, executed, by omega, by omega, by omega⟩

end DeltaGraph
