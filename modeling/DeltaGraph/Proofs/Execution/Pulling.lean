import DeltaGraph.Proofs.Execution.Choices
import DeltaGraph.Proofs.Execution.Intersection
import DeltaGraph.Proofs.Execution.Streams

/-!
# Pulling a plan

Each operator of the pull pipeline feeds what it makes of a tuple, in the order
in which the nested loops come upon it.  Pulling therefore has the effects of
the depth-first execution, counters included.
-/

namespace DeltaGraph

/-! ## Buffers -/

namespace Pending

variable {pending : Pending}

/-- A run of candidates that is used up hands on nothing. -/
theorem take?_of_nil (left : pending.candidates.drop pending.next = []) :
    pending.take? = none := by
  rw [take?, ← List.head?_drop, left]
  rfl

/-- A run of candidates with one left hands on its base with that candidate, and
steps past it. -/
theorem take?_of_cons {candidate : VertexId} {rest : List VertexId}
    (left : pending.candidates.drop pending.next = candidate :: rest) :
    pending.take? =
      some (pending.base.push candidate,
        { pending with next := pending.next + 1 }) := by
  rw [take?, ← List.head?_drop, left]
  rfl

theorem drop_succ {candidate : VertexId} {rest : List VertexId}
    (left : pending.candidates.drop pending.next = candidate :: rest) :
    pending.candidates.drop (pending.next + 1) = rest := by
  rw [← List.tail_drop, left, List.tail_cons]

end Pending

namespace Job

open Execution

variable {σ : Type}

/-- Pending candidates are given one after another. -/
theorem gives_pending
    (job : Job σ)
    (stage : Stage)
    (type : Option TypeId)
    (pending : Pending) :
    (job.extension stage type).Gives pending
      ((pending.candidates.drop pending.next).map pending.base.push) := by
  induction left : pending.candidates.drop pending.next
    generalizing pending with
  | nil => exact .nothing (Pending.take?_of_nil left)
  | cons candidate rest inductionHypothesis =>
      exact .tuple (Pending.take?_of_cons left)
        (inductionHypothesis { pending with next := pending.next + 1 }
          (Pending.drop_succ left))

/-- The choices of edges give what is outstanding. -/
theorem gives_outstanding
    (job : Job σ)
    {state : EdgeChoices}
    (valid : state.Valid) :
    job.resolution.Gives state
      (state.outstanding.map fun edges => { state.base with edges }) := by
  induction left : state.outstanding generalizing state with
  | nil =>
      rcases state.take?_cases valid with ⟨taken, _⟩ | ⟨_, _, _, _, _, found⟩
      · exact .nothing taken
      · rw [left] at found
        cases found
  | cons edges rest inductionHypothesis =>
      rcases state.take?_cases valid
        with ⟨_, found⟩ | ⟨edges, later, taken, valid, base, found⟩
      · rw [left] at found
        cases found
      · rw [left] at found
        cases found
        rw [← base] at taken ⊢
        exact .tuple taken (inductionHypothesis valid rfl)

/-- The choices of a tuple are the products of its lists of edges. -/
theorem gives_ofTuple
    (job : Job σ)
    (base : Binding)
    (choices : List (List EdgeId)) :
    job.resolution.Gives (EdgeChoices.ofTuple base choices)
      ((products choices).map fun edges => { base with edges }) := by
  rw [← EdgeChoices.outstanding_ofTuple base]
  exact job.gives_outstanding (EdgeChoices.valid_ofTuple base choices)

/-! ## What the operators make of a tuple -/

/-- The tuples that bind the slot of a further stage. -/
def extensions
    (job : Job σ)
    (stage : Stage)
    (type : Option TypeId)
    (base : Binding) :
    Execution σ (List Binding) := do
  count fun counters => { counters with extend := counters.extend + 1 }
  let candidates ← stage.admissible job.walkable base.vertices
  return (candidates.filter (job.walkable.graph.hasType type)).map base.push

/-- The tuples that bind every relation to an edge. -/
def resolutions
    (job : Job σ)
    (base : Binding) : Execution σ (List Binding) := do
  count fun counters => { counters with resolve := counters.resolve + 1 }
  let choices ←
    job.plan.lookups.mapM fun lookup =>
      lookup.resolve job.walkable base.vertices
  return (products choices).map fun edges => { base with edges }

/-- The tuple, if it passes the conditions. -/
def survivors (job : Job σ) (base : Binding) : Execution σ (List Binding) := do
  count fun counters => { counters with filter := counters.filter + 1 }
  if job.plan.conditions.all
    (·.holds job.walkable.graph base.vertices base.edges) then
      return [base]
  else
    note fun rows => { rows with rejected := rows.rejected + 1 }
    return []

/-- The candidates of a job are the admissible vertices of the right type, and
the vertices it keeps are those of its graph before and after. -/
theorem candidates_eq
    (job : Job σ)
    (stage : Stage)
    (type : Option TypeId)
    (vertexIds : Option (List VertexId))
    (base : Binding)
    (kept : vertexIds.getD job.walkable.graph.vertexIds =
      job.walkable.graph.vertexIds) :
    ∃ later : Option (List VertexId),
      later.getD job.walkable.graph.vertexIds = job.walkable.graph.vertexIds ∧
      job.candidates stage type vertexIds base =
        (stage.admissible job.walkable base.vertices).map fun admitted =>
          (admitted.filter (job.walkable.graph.hasType type), later) := by
  unfold candidates Stage.admissible
  split
  · exact ⟨some (vertexIds.getD job.walkable.graph.vertexIds),
      by simpa using kept, by simp [kept, Except.map]⟩
  · exact ⟨vertexIds, kept, by rw [stage.shortestFirst_eq_intersection]⟩

/-- The operator that extends tuples makes of each tuple what the reference of
the same stage does. -/
theorem expands_extension (job : Job σ) (stage : Stage) (type : Option TypeId) :
    (job.extension stage type).Expands (job.extensions stage type) := by
  -- The list of all vertices is kept once a stage without rules has read it.
  refine ⟨fun vertexIds : Option (List VertexId) =>
    vertexIds.getD job.walkable.graph.vertexIds = job.walkable.graph.vertexIds,
      rfl, ?_⟩
  intro vertexIds kept base
  obtain ⟨later, keeps, candidates⟩ :=
    job.candidates_eq stage type vertexIds base kept
  simp only [extension, extensions, candidates]
  cases stage.admissible job.walkable base.vertices with
  | error error => exact .fails _ error
  | ok admitted =>
      exact .buffers _ (job.gives_pending stage type ⟨base, _, 0⟩) keeps

theorem expands_resolution (job : Job σ) :
    job.resolution.Expands job.resolutions := by
  refine ⟨fun _ => True, trivial, fun _ _ base => ?_⟩
  simp only [resolution, resolutions, mapM_liftM]
  cases job.plan.lookups.mapM fun lookup =>
    lookup.resolve job.walkable base.vertices with
  | error error => exact .fails _ error
  | ok choices => exact .buffers _ (job.gives_ofTuple base choices) trivial

/-- The filter hands on a tuple that passes every condition and counts one that
does not. -/
theorem expands_filtering (job : Job σ) :
    job.filtering.Expands job.survivors := by
  refine ⟨fun _ => True, trivial, fun _ _ base => ?_⟩
  simp only [filtering, survivors]
  split
  · exact .buffers _ (.tuple rfl (.nothing rfl)) trivial
  · let rejecting : Execution σ Unit :=
      (count fun counters =>
        { counters with filter := counters.filter + 1 }) >>=
        fun _ => note fun rows => { rows with rejected := rows.rejected + 1 }
    have spent : job.filtering.Gives (none : Option Binding) [] := .nothing rfl
    have rejects :
        job.filtering.Fills (fun _ => True)
          (rejecting >>= fun _ => pure (none, ()))
        (rejecting >>= fun _ => pure []) := .buffers rejecting spent trivial
    rw [bind_assoc, bind_assoc] at rejects
    exact rejects

/-! ## What the streams feed -/

section

variable {job : Job σ} {stage : Stage} {sourceType targetType : Option TypeId}

theorem next_scanStream
    {state : ScanState}
    {pair : Except Error (Option (Binding × ScanState))}
    (found : job.nextPair stage sourceType targetType state = pair) :
    (job.scanStream stage sourceType targetType).next state =
      countScan >>= fun _ => liftM pair :=
  congrArg (fun pair => countScan >>= fun _ => liftM pair) found

theorem feeds_of_nextPair_eq {state other : ScanState} {feed : Feed σ}
    (feeds : (job.scanStream stage sourceType targetType).Feeds other feed)
    (same : job.nextPair stage sourceType targetType state =
      job.nextPair stage sourceType targetType other) :
    (job.scanStream stage sourceType targetType).Feeds state feed :=
  feeds.of_next_eq ((next_scanStream same).trans (next_scanStream rfl).symm)

/-- A scan whose run of candidates is used up goes on to its next source. -/
theorem nextPair_of_spent {pending : Pending} (spent : pending.take? = none)
    (sources : List VertexId) :
    job.nextPair stage sourceType targetType ⟨some sources, some pending⟩ =
      job.pairFrom stage sourceType targetType sources := by
  unfold nextPair
  rw [Option.bind_some, spent]

theorem nextPair_of_taken
    {pending left : Pending}
    {tuple : Binding}
    (taken : pending.take? = some (tuple, left))
    (sources : Option (List VertexId)) :
    job.nextPair stage sourceType targetType ⟨sources, some pending⟩ =
      .ok (some (tuple, ⟨sources, some left⟩)) := by
  unfold nextPair
  rw [Option.bind_some, taken]

theorem nextPair_of_sources (sources : List VertexId) :
    job.nextPair stage sourceType targetType ⟨some sources, none⟩ =
      job.pairFrom stage sourceType targetType sources := rfl

/-- A source of the right type whose targets can be listed starts a run over
these targets. -/
theorem pairFrom_of_ok
    (targetType : Option TypeId)
    {source : VertexId}
    (typed : job.walkable.graph.hasType sourceType source)
    {admitted : List VertexId}
    (found : stage.intersection job.walkable [source] = .ok admitted)
    (sources : List VertexId) :
    job.pairFrom stage sourceType targetType (source :: sources) =
      job.nextPair stage sourceType targetType ⟨some sources,
        some ⟨⟨[source], []⟩,
          admitted.filter (job.walkable.graph.hasType targetType), 0⟩⟩ := by
  rw [pairFrom, if_pos typed, stage.shortestFirst_eq_intersection, found]
  simp only
  split
  · rename_i taken
    exact (nextPair_of_taken taken _).symm
  · rename_i spent
    exact (nextPair_of_spent spent _).symm

/-- A source whose targets cannot be listed ends the scan with that error. -/
theorem pairFrom_of_error
    (targetType : Option TypeId)
    {source : VertexId}
    (typed : job.walkable.graph.hasType sourceType source)
    {error : Error}
    (found : stage.intersection job.walkable [source] = .error error)
    (sources : List VertexId) :
    job.pairFrom stage sourceType targetType (source :: sources) =
      .error error := by
  rw [pairFrom, if_pos typed, stage.shortestFirst_eq_intersection, found]

/-- The candidates of a source come before the next source. -/
theorem feeds_pending
    {sources : List VertexId}
    {feed : Feed σ}
    (feeds :
      (job.scanStream stage sourceType targetType).Feeds
        (ScanState.mk (some sources) none) feed)
    (pending : Pending) :
    (job.scanStream stage sourceType targetType).Feeds
      (ScanState.mk (some sources) (some pending))
      fun consume =>
        ((pending.candidates.drop pending.next).forM fun candidate => do
          countScan
          consume (pending.base.push candidate)) >>= fun _ => feed consume := by
  induction left : pending.candidates.drop pending.next
    generalizing pending with
  | nil =>
      simpa using feeds_of_nextPair_eq feeds
        (nextPair_of_spent (Pending.take?_of_nil left) sources)
  | cons candidate rest inductionHypothesis =>
      have later :=
        inductionHypothesis { pending with next := pending.next + 1 }
        (Pending.drop_succ left)
      simpa using TupleStream.Feeds.item countScan
        (next_scanStream
          (nextPair_of_taken (Pending.take?_of_cons left) (some sources))) later

/-- The scan feeds the pairs of each source of the type. -/
theorem feeds_scanStream (sources : List VertexId) :
    (job.scanStream stage sourceType targetType).Feeds
      (ScanState.mk (some sources) none)
      fun consume =>
        ((sources.filter (job.walkable.graph.hasType sourceType)).forM
          fun source => do
            let targets ← job.scanFrom stage targetType source
            targets.forM fun target => do
              countScan
              consume ⟨[source, target], []⟩) >>= fun _ => countScan := by
  induction sources with
  | nil => exact .ends countScan (next_scanStream rfl)
  | cons source rest inductionHypothesis =>
      by_cases typed : job.walkable.graph.hasType sourceType source
      · rw [List.filter_cons_of_pos typed]
        cases found : stage.intersection job.walkable [source] with
        | error error =>
            -- The failure of this source ends the scan.
            have scanned : job.scanFrom stage targetType source =
                countScan >>= fun _ => throw error := by rw [scanFrom, found]
            have feeds :=
              TupleStream.Feeds.ends (countScan >>= fun _ => throw error)
              (next_scanStream ((nextPair_of_sources _).trans
                (pairFrom_of_error targetType typed found rest)))
            simpa only [List.forM_eq_forM, List.forM_cons, scanned, bind_assoc,
              throw_bind]
              using feeds
        | ok admitted =>
            have scanned : job.scanFrom stage targetType source =
                pure (admitted.filter
                  (job.walkable.graph.hasType targetType)) := by
              rw [scanFrom, found]
            have feeds :=
              feeds_of_nextPair_eq (feeds_pending inductionHypothesis _)
              ((nextPair_of_sources _).trans
                (pairFrom_of_ok targetType typed found rest))
            simp only [List.forM_eq_forM, List.forM_cons, scanned, bind_assoc,
              pure_bind, List.drop_zero] at feeds ⊢
            exact feeds
      · rw [List.filter_cons_of_neg typed]
        refine feeds_of_nextPair_eq inductionHypothesis ?_
        rw [nextPair_of_sources, pairFrom, if_neg typed]
        rfl

end

/-- Hands on what the further stages make of a tuple. -/
def extending (job : Job σ) (consume : Binding → Execution σ Unit) :
    List (Stage × Option TypeId) → Binding → Execution σ Unit
  | [], base => consume base
  | (stage, type) :: rest, base => do
      let tuples ← job.extensions stage type base
      tuples.forM (job.extending consume rest)

/-- Stacking one operator for each later step on an input feeds what extending
every tuple of the input by these steps does. -/
theorem feeds_extended
    (job : Job σ)
    (rest : List (Stage × Option TypeId))
    {input : TupleStream σ}
    {feed : Feed σ}
    (feeds : input.Feeds input.start feed) :
    let extended :=
      rest.foldl
        (fun input (stage, type) => (job.extension stage type).onto input)
      input
    extended.Feeds extended.start fun consume =>
      feed (job.extending consume rest) := by
  induction rest generalizing input feed with
  | nil => exact feeds
  | cons first rest inductionHypothesis =>
      exact inductionHypothesis
        ((job.expands_extension first.1 first.2).feeds feeds)

/-- Hands on the tuple, if it passes the conditions. -/
def testing (job : Job σ) (base : Binding) : Execution σ Unit :=
  if job.plan.conditions.isEmpty then job.output base
  else job.survivors base >>= fun tuples => tuples.forM job.output

/-- Hands on the tuples that bind every relation to an edge. -/
def resolving (job : Job σ) (base : Binding) : Execution σ Unit := do
  let tuples ← job.resolutions base
  tuples.forM job.testing

/-- Draining the pipeline runs nested loops. -/
theorem drain_pipeline
    (job : Job σ)
    (first : Rule)
    (others : Stage)
    (sourceType targetType : Option TypeId)
    (rest : List (Stage × Option TypeId)) :
    let stream := job.pipeline (first :: others) sourceType targetType rest
    stream.drain job.output stream.start =
      (((job.walkable.graph.sources first.version first.direction).filter
          (job.walkable.graph.hasType sourceType)).forM fun source => do
        let targets ← job.scanFrom (first :: others) targetType source
        targets.forM fun target => do
          countScan
          job.extending job.resolving rest ⟨[source, target], []⟩) >>=
          fun _ => countScan := by
  have opened : job.nextPair (first :: others) sourceType targetType {} =
      job.nextPair (first :: others) sourceType targetType
        ⟨some (job.walkable.graph.sources first.version first.direction),
          none⟩ := rfl
  have scanned := feeds_of_nextPair_eq (feeds_scanStream _) opened
  have resolved :=
    job.expands_resolution.feeds (job.feeds_extended rest scanned)
  rw [pipeline]
  split
  · rename_i unconditional
    have tested : job.testing = job.output :=
      funext fun base => if_pos unconditional
    have resolving : job.resolving = fun base =>
        job.resolutions base >>= fun tuples => tuples.forM job.output := by
      rw [← tested]
      rfl
    rw [resolving]
    exact resolved.drain_eq job.output
  · rename_i conditional
    have tested : job.testing = fun base =>
        job.survivors base >>= fun tuples => tuples.forM job.output :=
      funext fun base => if_neg conditional
    have resolving : job.resolving = fun base =>
        job.resolutions base >>= fun tuples => tuples.forM fun tuple =>
          job.survivors tuple >>= fun tuples => tuples.forM job.output := by
      rw [← tested]
      rfl
    rw [resolving]
    exact (job.expands_filtering.feeds resolved).drain_eq job.output

/-! ## Pulling and descending -/

/-- Choosing an edge for one relation after the other runs through the product
of the choices in the same order. -/
theorem choose_eq_products (job : Job σ) (vertices : List VertexId)
    (choices : List (List EdgeId)) (edges : List EdgeId) :
    job.choose vertices choices edges =
      (products choices).forM fun later =>
        job.test vertices (edges ++ later) := by
  induction choices generalizing edges with
  | nil => simp [choose, products]
  | cons first rest inductionHypothesis =>
      simp only [choose, products, inductionHypothesis, List.forM_eq_forM]
      induction first with
      | nil => rfl
      | cons edge others inner =>
          rw [List.forM_cons, inner, List.flatMap_cons, List.forM_append,
            List.forM_map]
          simp only [List.append_assoc, List.singleton_append]

/-- Reading columns that lie inside a tuple never fails. -/
theorem mapM_shown {tuple : Binding} {columns : List Nat}
    (inside : ∀ column ∈ columns, column < tuple.vertices.length) :
    columns.mapM tuple.shown =
      .ok (columns.filterMap (tuple.vertices[·]?)) := by
  induction columns with
  | nil => rfl
  | cons first rest inductionHypothesis =>
      obtain ⟨here, later⟩ := List.forall_mem_cons.mp inside
      have found : tuple.vertices[first]? = some tuple.vertices[first] :=
        List.getElem?_eq_getElem here
      rw [List.mapM_cons, inductionHypothesis later, List.filterMap_cons,
        Binding.shown, found]
      rfl

/-- A row that shows bound slots only can be had. -/
theorem outputRow_eq (plan : Plan) {tuple : Binding}
    (inside : ∀ column ∈ plan.columns, column < tuple.vertices.length) :
    plan.outputRow tuple = .ok (plan.row tuple.vertices tuple.edges) := by
  rw [Plan.outputRow, mapM_shown inside]
  rfl

theorem testing_eq_test
    (job : Job σ)
    {vertices : List VertexId}
    (edges : List EdgeId)
    (inside : ∀ column ∈ job.plan.columns, column < vertices.length) :
    job.testing ⟨vertices, edges⟩ = job.test vertices edges := by
  have delivered : job.output ⟨vertices, edges⟩ = job.emit vertices edges := by
    rw [output, outputRow_eq job.plan inside]
    rfl
  unfold testing test
  split
  · exact delivered
  · simp only [survivors, bind_assoc]
    split
    · simp [delivered]
    · simp

theorem resolving_eq_resolve (job : Job σ) {vertices : List VertexId}
    (inside : ∀ column ∈ job.plan.columns, column < vertices.length) :
    job.resolving ⟨vertices, []⟩ = job.resolve vertices := by
  simp only [resolving, resolutions, resolve, bind_assoc, pure_bind,
    choose_eq_products, List.nil_append, List.forM_eq_forM, List.forM_map,
    job.testing_eq_test _ inside]

/-- The nested extension of a one-row reference equals the extension of bare
vertices when every shown column lies inside the finished tuple. -/
theorem extending_eq_extend
    (job : Job σ)
    (rest : List (Stage × Option TypeId))
    {vertices : List VertexId}
    (inside : ∀ column ∈ job.plan.columns,
      column < vertices.length + rest.length) :
    job.extending job.resolving rest ⟨vertices, []⟩ =
      job.extend rest vertices := by
  induction rest generalizing vertices with
  | nil => exact job.resolving_eq_resolve inside
  | cons first rest inductionHypothesis =>
      have deeper (vertex : VertexId) :
          job.extending job.resolving rest
            (Binding.push ⟨vertices, []⟩ vertex) =
            job.extend rest (vertices ++ [vertex]) := by
        refine inductionHypothesis fun column member => ?_
        have below := inside column member
        simp only [List.length_append, List.length_cons, List.length_nil]
          at below ⊢
        omega
      simp only [extending, extensions, extend, bind_assoc, pure_bind,
        List.forM_eq_forM, List.forM_map, deeper]

/-- Pulling a plan has the effects of executing it depth first. -/
theorem pull_eq_run (job : Job σ) : job.pull = job.run := by
  unfold pull run
  cases shape : job.plan.shapeViolation? with
  | some violation => rfl
  | none =>
      obtain ⟨several, stageCount, typeCount, _, inside⟩ :=
        Plan.shape_of_none shape
      obtain ⟨first, others, rest, sourceType, targetType, types, stages,
          typed⟩ :=
        Plan.exists_start shape
      have bound :
          ∀ column ∈ job.plan.columns,
            column < 2 + (rest.zip types).length := by
        intro column member
        have below := inside column member
        rw [stages, List.length_cons] at stageCount
        rw [typed, List.length_cons, List.length_cons] at typeCount
        rw [List.length_zip]
        omega
      have binds (source target : VertexId) :
          job.extending job.resolving (rest.zip types) ⟨[source, target], []⟩ =
            job.extend (rest.zip types) [source, target] :=
        job.extending_eq_extend (rest.zip types) bound
      rw [stages, typed]
      refine (job.drain_pipeline first others sourceType targetType
        (rest.zip types)).trans ?_
      simp only [binds]
      rfl

end Job

/-- Pulling the rows of any plan, be it well-formed or not, comes to the same as
executing it depth first, and to what plain nested loops come to: the same
events in the same order, and then the same numbers of delivered and rejected
rows or the same violated condition. -/
theorem Plan.pulls_nested_loops
    {graph : Graph}
    (reachable : graph.Reachable)
    (plan : Plan)
    (counters : Counters) :
    plan.pullEvents graph counters = plan.collectEvents graph counters ∧
      (plan.pullEvents graph counters).1 = (plan.loop graph).1 ∧
      (plan.pullEvents graph counters).2.1 = (plan.loop graph).2 ∧
      ∀ error, (plan.loop graph).1 = .error error →
        ∃ violation, error = .violated violation := by
  have same :
      plan.pullEvents graph counters = plan.collectEvents graph counters := by
    rw [pullEvents, collectEvents, Job.execute, Job.pull_eq_run]
    rfl
  obtain ⟨outcome, events⟩ :=
    plan.collectEvents_eq_loop reachable.sound counters
  rw [same]
  exact ⟨rfl, outcome, events, fun _ fails => loop_error fails⟩

/-- A plan that no pattern has: it resolves a relation of a type that the second
pair of vertices is not joined by, after it has delivered the rows of the
first. -/
theorem Plan.pulls_nested_loops_until_violation :
    let graph := (((Graph.empty.stage (.addEdge ⟨⟨1⟩, ⟨2⟩, ⟨1⟩⟩ [])).stage
      (.addEdge ⟨⟨1⟩, ⟨2⟩, ⟨2⟩⟩ [])).stage
      (.addEdge ⟨⟨1⟩, ⟨3⟩, ⟨2⟩⟩ [])).commit.2
    let plan : Plan :=
      { order := ["a", "b"]
        types := [none, none]
        stages := [[⟨0, .forward, .permanent, none⟩]]
        lookups :=
          [⟨"r", 0, 1, none, .permanent⟩, ⟨"s", 0, 1, some ⟨1⟩, .permanent⟩]
        conditions := []
        columns := [1, 0, 1] }
    graph.Reachable ∧ plan.pullEvents graph {} = plan.collectEvents graph {} ∧
      (plan.pullEvents graph {}).1 =
        .error (.violated (.unresolvedRelation "s" ⟨1⟩ ⟨3⟩ .permanent)) ∧
      (plan.pullEvents graph {}).2.1 =
        [⟨.matched, ⟨[⟨2⟩, ⟨1⟩, ⟨2⟩], [⟨0⟩, ⟨0⟩]⟩⟩,
          ⟨.matched, ⟨[⟨2⟩, ⟨1⟩, ⟨2⟩], [⟨1⟩, ⟨0⟩]⟩⟩] := by
  intro graph plan
  have reachable : graph.Reachable :=
    .commit (.stage _ (.stage _ (.stage _ .empty)))
  obtain ⟨same, outcome, events, _⟩ := Plan.pulls_nested_loops reachable plan {}
  have looped : plan.loop graph =
      (.error (.violated (.unresolvedRelation "s" ⟨1⟩ ⟨3⟩ .permanent)),
        [⟨.matched, ⟨[⟨2⟩, ⟨1⟩, ⟨2⟩], [⟨0⟩, ⟨0⟩]⟩⟩,
          ⟨.matched, ⟨[⟨2⟩, ⟨1⟩, ⟨2⟩], [⟨1⟩, ⟨0⟩]⟩⟩]) := by decide +kernel
  rw [looped] at outcome events
  exact ⟨reachable, same, outcome, events⟩

end DeltaGraph
