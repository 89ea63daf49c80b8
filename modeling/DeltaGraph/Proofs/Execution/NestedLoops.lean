import DeltaGraph.Proofs.Execution.Ascending
import DeltaGraph.Proofs.Execution.Rejection

/-!
# Nested loops

What a plan finds, be it well-formed or not, can be told with plain loops: over
the sources of the first rule, over the vertices that all lists of a stage
contain, and over the products of the lists of edges.  The first failure ends
the loops.
-/

namespace DeltaGraph

/-- All ways of taking one member of each list; that of the last list varies
fastest. -/
def products {α : Type} : List (List α) → List (List α)
  | [] => [[]]
  | first :: rest => first.flatMap fun item => (products rest).map (item :: ·)

namespace Stage

/-- The lists of neighbors that the rules read, up to the first empty one. -/
def readLists (walkable : WalkableGraph) (bound : List VertexId) :
    Stage → Except Error (List (List VertexId))
  | [] => .ok []
  | rule :: rest => do
      let neighbors ← rule.neighbors walkable bound
      if neighbors.isEmpty then return [[]]
      let lists ← readLists walkable bound rest
      return neighbors :: lists

/-- The vertices of a type that all lists of a stage contain. -/
def common
    (stage : Stage)
    (graph : Graph)
    (type : Option TypeId)
    (bound : List VertexId) :
    Except Error (List VertexId) := do
  let lists ← stage.readLists graph.walkable bound
  return graph.vertexIds.filter fun vertex =>
    lists.all (·.contains vertex) && graph.hasType type vertex

end Stage

namespace Plan

/-- The complete tuples with given vertices. -/
def tuplesAt
    (plan : Plan)
    (graph : Graph)
    (vertices : List VertexId) : Enumeration :=
  .given
    (plan.lookups.mapM fun lookup => lookup.resolve graph.walkable vertices)
    fun choices =>
      ⟨(products choices).map fun edges => ⟨vertices, edges⟩, none⟩

/-- The complete tuples that bind one more vertex for each remaining stage. -/
def tuplesFrom (plan : Plan) (graph : Graph) :
    List (Stage × Option TypeId) → List VertexId → Enumeration
  | [], vertices => plan.tuplesAt graph vertices
  | (stage, type) :: rest, vertices =>
      .given (stage.common graph type vertices) fun candidates =>
        .each candidates fun vertex =>
          plan.tuplesFrom graph rest (vertices ++ [vertex])

/-- The complete tuples of a plan. -/
def tuples (plan : Plan) (graph : Graph) : Enumeration :=
  match plan.stages, plan.types with
  | (first :: _) :: _, sourceType :: types =>
      .each ((graph.sources first.version first.direction).filter
        (graph.hasType sourceType))
        fun source => plan.tuplesFrom graph (plan.stages.zip types) [source]
  | _, _ => {}

/-- Whether all conditions hold. -/
def accepts (plan : Plan) (graph : Graph) (tuple : Binding) : Bool :=
  plan.conditions.all (·.holds graph tuple.vertices tuple.edges)

/-- What the loops over the tuples of a plan come to, and the events of the
tuples that pass the conditions. -/
def loop (plan : Plan) (graph : Graph) : Except Error RowCounts × List Event :=
  match plan.shapeViolation? with
  | some violation => (.error (.violated violation), [])
  | none =>
      let passing := (plan.tuples graph).bindings.filter (plan.accepts graph)
      let failing := (plan.tuples graph).bindings.filter (!plan.accepts graph ·)
      (match (plan.tuples graph).failure with
        | some error => .error error
        | none => .ok ⟨passing.length, failing.length⟩,
        passing.map plan.event)

end Plan

/-! ## Lists of a stage -/

/-- Nothing is common with an empty list. -/
theorem intersectAscending_nil (lefts : List VertexId) :
    intersectAscending lefts [] = [] := by
  induction lefts with
  | nil => rfl
  | cons left lefts inductionHypothesis =>
      simpa [intersectAscending] using inductionHypothesis

theorem foldl_intersectAscending_nil (lists : List (List VertexId)) :
    lists.foldl intersectAscending [] = [] := by
  induction lists with
  | nil => rfl
  | cons first rest inductionHypothesis =>
      simpa [intersectAscending] using inductionHypothesis

namespace Stage

/-- The common members of lists, had by intersecting them one after another. -/
def intersectInTurn : List (List VertexId) → List VertexId
  | [] => []
  | first :: rest => rest.foldl intersectAscending first

/-- What lists in ascending order have in common is in ascending order. -/
theorem pairwise_intersectInTurn {lists : List (List VertexId)}
    (ascending : ∀ list ∈ lists, list.Pairwise (· < ·)) :
    (intersectInTurn lists).Pairwise (· < ·) := by
  cases lists with
  | nil => exact .nil
  | cons first rest =>
      have firstAscending := ascending first (.head _)
      clear ascending
      unfold intersectInTurn
      induction rest generalizing first with
      | nil => exact firstAscending
      | cons next later inductionHypothesis =>
          exact inductionHypothesis _
            (firstAscending.sublist (sublist_intersectAscending _ _))

/-- Intersecting ascending lists one after another leaves their common
members. -/
theorem mem_intersectInTurn {lists : List (List VertexId)}
    (ascending : ∀ list ∈ lists, list.Pairwise (· < ·)) {vertex : VertexId} :
    vertex ∈ intersectInTurn lists ↔
      lists ≠ [] ∧ ∀ list ∈ lists, vertex ∈ list := by
  cases lists with
  | nil => simp [intersectInTurn]
  | cons first rest =>
      obtain ⟨firstAscending, restAscending⟩ :=
        List.forall_mem_cons.mp ascending
      clear ascending
      rw [List.forall_mem_cons, intersectInTurn]
      simp only [ne_eq, reduceCtorEq, not_false_eq_true, true_and]
      induction rest generalizing first with
      | nil => simp
      | cons next later inductionHypothesis =>
          obtain ⟨nextAscending, laterAscending⟩ :=
            List.forall_mem_cons.mp restAscending
          rw [List.foldl_cons, inductionHypothesis _
            (firstAscending.sublist (sublist_intersectAscending _ _))
            laterAscending, mem_intersectAscending firstAscending nextAscending,
            List.forall_mem_cons, and_assoc]

variable {walkable : WalkableGraph} {bound : List VertexId} {stage : Stage}

/-- An empty list ends the reading: the rules after it are not looked at. -/
theorem readLists_cons (rule : Rule) (rest : Stage) :
    readLists walkable bound (rule :: rest) =
      match rule.neighbors walkable bound with
      | .error error => .error error
      | .ok [] => .ok [[]]
      | .ok neighbors =>
          (readLists walkable bound rest).map (neighbors :: ·) := by
  rw [readLists]
  match rule.neighbors walkable bound with
  | .error error => rfl
  | .ok [] => rfl
  | .ok (first :: others) => cases readLists walkable bound rest <;> rfl

/-- Narrowing rule by rule comes to the same as reading all lists first and
intersecting them in turn. -/
theorem narrow_eq_readLists (stage : Stage) (admitted : List VertexId) :
    stage.narrow walkable bound admitted =
      (stage.readLists walkable bound).map
        (·.foldl intersectAscending admitted) := by
  induction stage generalizing admitted with
  | nil => rfl
  | cons rule rest inductionHypothesis =>
      rw [narrow, readLists_cons]
      cases rule.neighbors walkable bound with
      | error error => rfl
      | ok neighbors =>
          cases neighbors with
          | nil => simp [Except.map, intersectAscending_nil]
          | cons first others =>
              simp only [inductionHypothesis]
              cases readLists walkable bound rest <;> rfl

/-- A stage admits what the lists that it reads have in common. -/
theorem intersection_eq_readLists (stage : Stage) :
    stage.intersection walkable bound =
      (stage.readLists walkable bound).map intersectInTurn := by
  cases stage with
  | nil => rfl
  | cons rule rest =>
      rw [intersection, readLists_cons]
      cases rule.neighbors walkable bound with
      | error error => rfl
      | ok neighbors =>
          cases neighbors with
          | nil => rfl
          | cons first others =>
              simp only [narrow_eq_readLists]
              cases readLists walkable bound rest <;> rfl

/-- The lists after an empty one are not read. -/
theorem exists_of_readLists_cons
    {rule : Rule}
    {rest : Stage}
    {lists : List (List VertexId)}
    (read : readLists walkable bound (rule :: rest) = .ok lists) :
    ∃ neighbors others, rule.neighbors walkable bound = .ok neighbors ∧
      lists = neighbors :: others ∧
      (neighbors = [] ∧ others = [] ∨
        readLists walkable bound rest = .ok others) := by
  rw [readLists_cons] at read
  split at read
  · cases read
  · rename_i found
    cases read
    exact ⟨[], [], found, rfl, .inl ⟨rfl, rfl⟩⟩
  · rename_i neighbors _ found
    cases later : readLists walkable bound rest with
    | error error =>
        rw [later] at read
        cases read
    | ok others =>
        rw [later] at read
        cases read
        exact ⟨neighbors, others, found, rfl, .inr rfl⟩

/-- Every list that is read is in ascending order. -/
theorem pairwise_of_mem_readLists {lists : List (List VertexId)}
    (read : stage.readLists walkable bound = .ok lists) :
    ∀ list ∈ lists, list.Pairwise (· < ·) := by
  induction stage generalizing lists with
  | nil =>
      cases read
      simp
  | cons rule rest inductionHypothesis =>
      obtain ⟨neighbors, others, found, rfl, later⟩ :=
        exists_of_readLists_cons read
      refine List.forall_mem_cons.mpr ⟨Rule.pairwise_neighbors found, ?_⟩
      rcases later with ⟨_, rfl⟩ | later
      · simp
      · exact inductionHypothesis later

/-- A vertex that a rule admits is known. -/
theorem known_of_mem_ruleNeighbors
    {graph : Graph}
    (sound : graph.Sound)
    {rule : Rule}
    {neighbors : List VertexId}
    (found : rule.neighbors graph.walkable bound = .ok neighbors)
    {vertex : VertexId}
    (member : vertex ∈ neighbors) :
    vertex ∈ graph.vertices := by
  unfold Rule.neighbors at found
  split at found
  · cases found
    exact sound.known_of_mem_neighbors member
  · cases found

/-- The vertices that a stage admits, in the order of their numbers, are those
that all its lists contain. -/
theorem common_eq_admissible
    (stage : Stage)
    {graph : Graph}
    (sound : graph.Sound)
    (type : Option TypeId)
    (bound : List VertexId) :
    stage.common graph type bound =
      (stage.admissible graph.walkable bound).map
        (·.filter (graph.hasType type)) := by
  cases stage with
  | nil =>
      exact congrArg Except.ok (List.filter_congr fun _ _ => Bool.true_and _)
  | cons rule rest =>
      have admits : Stage.admissible (rule :: rest) graph.walkable bound =
          (readLists graph.walkable bound (rule :: rest)).map intersectInTurn :=
        intersection_eq_readLists (rule :: rest)
      rw [admits, common]
      cases read : readLists graph.walkable bound (rule :: rest) with
      | error error => rfl
      | ok lists =>
          obtain ⟨first, others, found, rfl, _⟩ := exists_of_readLists_cons read
          have ascending := pairwise_of_mem_readLists read
          -- Both sides ascend, so it is enough that they have the same members.
          refine congrArg Except.ok (List.Pairwise.eq_of_mem_iff
            (graph.pairwise_vertexIds.filter _)
            ((pairwise_intersectInTurn ascending).filter _) fun vertex => ?_)
          simp only [List.mem_filter, mem_intersectInTurn ascending,
            Bool.and_eq_true, List.contains_iff_mem, List.all_eq_true,
            Graph.mem_vertexIds]
          constructor
          · rintro ⟨_, inAll, typed⟩
            exact ⟨⟨List.cons_ne_nil _ _, inAll⟩, typed⟩
          · rintro ⟨⟨_, inAll⟩, typed⟩
            exact ⟨known_of_mem_ruleNeighbors sound found
              (inAll first (.head _)), inAll, typed⟩

end Stage

/-! ## Loops without the conditions -/

namespace Enumeration

/-- The bindings that pass a test, with the same failure. -/
def keep (test : Binding → Bool) (enumeration : Enumeration) : Enumeration :=
  ⟨enumeration.bindings.filter test, enumeration.failure⟩

variable {α β : Type} (test : Binding → Bool)

theorem keep_append (first next : Enumeration) :
    (first.append next).keep test =
      (first.keep test).append (next.keep test) := by
  obtain ⟨bindings, failure⟩ := first
  cases failure <;> simp [append, keep]

/-- Enumerations that follow one another are filtered one by one. -/
theorem keep_each (items : List α) (body : α → Enumeration) :
    (each items body).keep test =
      each items fun item => (body item).keep test := by
  induction items with
  | nil => rfl
  | cons first rest inductionHypothesis =>
      exact (keep_append test _ _).trans (congrArg _ inductionHypothesis)

theorem keep_given (value : Except Error α) (body : α → Enumeration) :
    (given value body).keep test =
      given value fun item => (body item).keep test := by
  cases value <;> rfl

theorem given_map
    (value : Except Error α)
    (change : α → β)
    (body : β → Enumeration) :
    given (value.map change) body =
      given value fun item => body (change item) := by
  cases value <;> rfl

/-- A failure can only be a violated condition. -/
def FailsByViolation (enumeration : Enumeration) : Prop :=
  ∀ error, enumeration.failure = some error →
    ∃ violation, error = .violated violation

/-- If two enumerations fail by a violation at most, so does one after the
other. -/
theorem FailsByViolation.append
    {first next : Enumeration}
    (fails : first.FailsByViolation)
    (nextFails : next.FailsByViolation) :
    (first.append next).FailsByViolation := by
  unfold Enumeration.append
  split
  · exact nextFails
  · exact fails

theorem FailsByViolation.each {items : List α} {body : α → Enumeration}
    (fails : ∀ item, (body item).FailsByViolation) :
    (Enumeration.each items body).FailsByViolation := by
  induction items with
  | nil => exact fun _ failed => by cases failed
  | cons first rest inductionHypothesis =>
      exact (fails first).append inductionHypothesis

/-- A missing value is a failure by a violation if its error is one. -/
theorem FailsByViolation.given
    {value : Except Error α}
    {body : α → Enumeration}
    (fails : ∀ item, (body item).FailsByViolation)
    (missing : ∀ error, value = .error error →
      ∃ violation, error = .violated violation) :
    (Enumeration.given value body).FailsByViolation := by
  cases value with
  | ok item => exact fails item
  | error error =>
      intro found failed
      cases failed
      exact missing error rfl

end Enumeration

theorem exists_of_mapM_except_error
    {α β : Type}
    {items : List α}
    {value : α → Except Error β}
    {error : Error}
    (fails : items.mapM value = .error error) :
    ∃ item ∈ items, value item = .error error := by
  obtain ⟨before, item, after, _, _, rfl, _, failed⟩ := exists_of_mapM_error
    ((run_mapM_except items value ()).trans (congrArg (·, ()) fails))
  exact ⟨item, by simp, congrArg Prod.fst failed⟩

/-- A rule cannot be read only if it starts at a vertex that is not bound. -/
theorem Rule.neighbors_error
    {rule : Rule}
    {walkable : WalkableGraph}
    {bound : List VertexId}
    {error : Error}
    (fails : rule.neighbors walkable bound = .error error) :
    ∃ violation, error = .violated violation := by
  unfold Rule.neighbors at fails
  split at fails
  · cases fails
  · cases fails
    exact ⟨_, rfl⟩

/-- A stage has no candidates only because of a rule that cannot be read. -/
theorem Stage.common_error
    {stage : Stage}
    {graph : Graph}
    {type : Option TypeId}
    {bound : List VertexId}
    {error : Error}
    (fails : stage.common graph type bound = .error error) :
    ∃ violation, error = .violated violation := by
  have unread : stage.readLists graph.walkable bound = .error error := by
    rw [common] at fails
    cases read : stage.readLists graph.walkable bound with
    | error found =>
        rw [read] at fails
        cases fails
        rfl
    | ok lists =>
        rw [read] at fails
        cases fails
  clear fails
  induction stage with
  | nil => cases unread
  | cons rule rest inductionHypothesis =>
      rw [readLists_cons] at unread
      split at unread
      · rename_i failed
        cases unread
        exact rule.neighbors_error failed
      · cases unread
      · cases read : readLists graph.walkable bound rest with
        | error found =>
            rw [read] at unread
            cases unread
            exact inductionHypothesis read
        | ok lists =>
            rw [read] at unread
            cases unread

/-- A relation is not resolved only if an end is not bound or no edge is
found. -/
theorem EdgeLookup.resolve_error
    {lookup : EdgeLookup}
    {walkable : WalkableGraph}
    {bound : List VertexId}
    {error : Error}
    (fails : lookup.resolve walkable bound = .error error) :
    ∃ violation, error = .violated violation := by
  have ends (slot : Nat) :
      (∃ vertex, lookup.endpoint bound slot = .ok vertex) ∨
        ∃ violation,
          lookup.endpoint bound slot = .error (.violated violation) := by
    unfold endpoint
    split
    · exact .inl ⟨_, rfl⟩
    · exact .inr ⟨_, rfl⟩
  unfold resolve at fails
  obtain ⟨source, starts⟩ | ⟨violation, unbound⟩ := ends lookup.source
  · obtain ⟨target, stops⟩ | ⟨violation, unbound⟩ := ends lookup.target
    · rw [starts, stops] at fails
      simp only [bind, Except.bind] at fails
      split at fails
      · cases fails
        exact ⟨_, rfl⟩
      · cases fails
    · rw [starts, unbound] at fails
      cases fails
      exact ⟨_, rfl⟩
  · rw [unbound] at fails
    cases fails
    exact ⟨_, rfl⟩

namespace Plan

variable {graph : Graph}

/-- Choosing edges relation by relation gives the product of the choices, as far
as it is accepted. -/
theorem chosen_eq_products
    (plan : Plan)
    (graph : Graph)
    (vertices : List VertexId)
    (choices : List (List EdgeId))
    (edges : List EdgeId) :
    plan.chosen graph vertices choices edges =
      ((products choices).map fun later => ⟨vertices, edges ++ later⟩).filter
        (plan.accepts graph) := by
  induction choices generalizing edges with
  | nil => simp [chosen, products, accepts, List.filter_singleton]
  | cons first rest inductionHypothesis =>
      simp [chosen, products, inductionHypothesis, List.map_flatMap,
        List.filter_flatMap, Function.comp_def]

theorem resolved_eq_keep
    (plan : Plan)
    (graph : Graph)
    (vertices : List VertexId) :
    plan.resolved graph.walkable vertices =
      (plan.tuplesAt graph vertices).keep (plan.accepts graph) := by
  rw [resolved, tuplesAt, Enumeration.keep_given]
  congr
  funext choices
  rw [chosen_eq_products]
  rfl

/-- Extending tuples stage by stage gives all tuples over the bound vertices, as
far as they are accepted. -/
theorem extended_eq_keep (plan : Plan) (sound : graph.Sound)
    (stages : List (Stage × Option TypeId)) (vertices : List VertexId) :
    plan.extended graph.walkable stages vertices =
      (plan.tuplesFrom graph stages vertices).keep (plan.accepts graph) := by
  induction stages generalizing vertices with
  | nil => exact plan.resolved_eq_keep graph vertices
  | cons first rest inductionHypothesis =>
      rw [extended, tuplesFrom, first.1.common_eq_admissible sound,
        Enumeration.given_map, Enumeration.keep_given]
      simp only [Enumeration.keep_each, inductionHypothesis]
      rfl

/-- A plan whose parts fit together binds a source, and then one variable for
each stage. -/
theorem shape_of_none {plan : Plan} (shaped : plan.shapeViolation? = none) :
    2 ≤ plan.order.length ∧ plan.stages.length = plan.order.length - 1 ∧
      plan.types.length = plan.order.length ∧
      plan.stages.head?.all List.isEmpty = false ∧
      ∀ column ∈ plan.columns, column < plan.order.length := by
  simp only [shapeViolation?] at shaped
  split at shaped
  · cases shaped
  · rename_i fits
    split at shaped
    · cases shaped
    · rename_i started
      split at shaped
      · cases shaped
      · rename_i inside
        refine ⟨by omega, by omega, by omega, by simpa using started, ?_⟩
        simpa using inside

/-- A plan of the right shape starts with a rule, between variables of two
types. -/
theorem exists_start {plan : Plan} (shaped : plan.shapeViolation? = none) :
    ∃ first others rest sourceType targetType types,
      plan.stages = (first :: others) :: rest ∧
        plan.types = sourceType :: targetType :: types := by
  obtain ⟨several, _, typed, started, _⟩ := shape_of_none shaped
  match stageList : plan.stages, typeList : plan.types with
  | [], _ => simp [stageList] at started
  | [] :: _, _ => simp [stageList] at started
  | _ :: _, [] | _ :: _, [_] =>
      rw [typeList] at typed
      simp only [List.length_cons, List.length_nil] at typed
      omega
  | (first :: others) :: rest, sourceType :: targetType :: types =>
      exact ⟨first, others, rest, sourceType, targetType, types, rfl, rfl⟩

/-- A plan enumerates the tuples that pass its conditions. -/
theorem enumeration_eq_keep {plan : Plan} (sound : graph.Sound)
    (shaped : plan.shapeViolation? = none) :
    plan.enumeration graph.walkable =
      (plan.tuples graph).keep (plan.accepts graph) := by
  obtain ⟨first, others, rest, sourceType, targetType, types, stages, typed⟩ :=
    exists_start shaped
  unfold enumeration tuples
  rw [shaped, stages, typed]
  simp only [scanned, Enumeration.keep_each, List.zip_cons_cons, tuplesFrom,
    Stage.common_eq_admissible _ sound, Enumeration.given_map,
    Enumeration.keep_given, plan.extended_eq_keep sound]
  rfl

/-- The conditions of a plan play no part in which tuples there are. -/
theorem tuplesFrom_unconditional (plan : Plan) (graph : Graph)
    (stages : List (Stage × Option TypeId)) (vertices : List VertexId) :
    plan.unconditional.tuplesFrom graph stages vertices =
      plan.tuplesFrom graph stages vertices := by
  induction stages generalizing vertices with
  | nil => rfl
  | cons first rest inductionHypothesis =>
      simp only [tuplesFrom, inductionHypothesis]

/-- Without its conditions a plan enumerates all tuples. -/
theorem unconditional_enumeration_eq {plan : Plan} (sound : graph.Sound)
    (shaped : plan.shapeViolation? = none) :
    plan.unconditional.enumeration graph.walkable = plan.tuples graph := by
  have all : plan.unconditional.accepts graph = fun _ => true := rfl
  have tuples : plan.unconditional.tuples graph = plan.tuples graph := by
    simp only [Plan.tuples, tuplesFrom_unconditional]
    rfl
  have keeps : plan.unconditional.enumeration graph.walkable =
      (plan.unconditional.tuples graph).keep
        (plan.unconditional.accepts graph) :=
    enumeration_eq_keep sound shaped
  rw [keeps, all, tuples, Enumeration.keep, List.filter_true]

theorem tuplesFrom_failsByViolation (plan : Plan) (graph : Graph)
    (stages : List (Stage × Option TypeId)) (vertices : List VertexId) :
    (plan.tuplesFrom graph stages vertices).FailsByViolation := by
  induction stages generalizing vertices with
  | nil =>
      refine .given (fun _ _ failed => by cases failed) fun error fails => ?_
      obtain ⟨lookup, _, unresolved⟩ := exists_of_mapM_except_error fails
      exact lookup.resolve_error unresolved
  | cons first rest inductionHypothesis =>
      exact .given
        (fun _ =>
          .each fun vertex => inductionHypothesis (vertices ++ [vertex]))
        fun _ fails => first.1.common_error fails

/-- The nested loops fail only by a violated condition. -/
theorem loop_error
    {plan : Plan}
    {graph : Graph}
    {error : Error}
    (fails : (plan.loop graph).1 = .error error) :
    ∃ violation, error = .violated violation := by
  have tuples : (plan.tuples graph).FailsByViolation := by
    unfold Plan.tuples
    split
    · exact .each fun source =>
        plan.tuplesFrom_failsByViolation graph _ [source]
    · exact fun _ failed => by cases failed
  unfold loop at fails
  split at fails
  · cases fails
    exact ⟨_, rfl⟩
  · simp only at fails
    split at fails
    · rename_i failed
      cases fails
      exact tuples _ failed
    · cases fails

/-- An execution that succeeds delivers the tuples that pass the conditions, and
rejects the others. -/
theorem rows_of_run
    {plan : Plan}
    (sound : graph.Sound)
    (shaped : plan.shapeViolation? = none)
    {σ : Type}
    {deliver : Delivery σ}
    {receiver : σ}
    {counters : Counters}
    (succeeds :
      ((Job.mk plan graph.walkable deliver).run { receiver, counters }).1 =
        .ok ()) :
    ((Job.mk plan graph.walkable deliver).run { receiver, counters }).2.rows =
      ⟨((plan.tuples graph).bindings.filter (plan.accepts graph)).length,
        ((plan.tuples graph).bindings.filter
          (!plan.accepts graph ·)).length⟩ := by
  -- Delivered and tried rows are counted on the way; the rejected ones are the
  -- difference.
  have delivered := (Job.plays_run _).delivered _ succeeds
  have tried := (Job.tries_run _).tried _ succeeds
  simp only [enumeration_eq_keep sound shaped,
    unconditional_enumeration_eq sound shaped, RowCounts.tried,
    Enumeration.keep, Nat.zero_add] at delivered tried
  rw [List.length_eq_length_filter_add (plan.accepts graph), delivered] at tried
  rw [← delivered, ← Nat.add_left_cancel tried]

/-- Collecting the events of an enumeration gives its bindings in order, the
last event first. -/
theorem run_play_collectEvent
    (plan : Plan)
    (walkable : WalkableGraph)
    (enumeration : Enumeration) :
    (Job.mk plan walkable collectEvent).play enumeration [] =
      (match enumeration.failure with
        | some error => .error error
        | none => .ok (), (enumeration.bindings.map plan.event).reverse) := by
  rw [Job.play, run_bind_ok (run_all_collectEvent _ []), List.append_nil]
  cases enumeration.failure <;> rfl

/-- Executing a plan comes to what the loops come to. -/
theorem collectEvents_eq_loop
    (plan : Plan)
    (sound : graph.Sound)
    (counters : Counters) :
    (plan.collectEvents graph counters).1 = (plan.loop graph).1 ∧
      (plan.collectEvents graph counters).2.1 = (plan.loop graph).2 := by
  let job : Job (List Event) := ⟨plan, graph.walkable, collectEvent⟩
  let start : Progress (List Event) := { receiver := [], counters }
  have outcome := job.plays_run.outcome start
  have receiver := job.plays_run.receiver start
  rw [run_play_collectEvent] at outcome receiver
  have collected : (plan.collectEvents graph counters).1 =
        (job.run start).1.map (fun _ => (job.run start).2.rows) ∧
      (plan.collectEvents graph counters).2.1 =
        (job.run start).2.receiver.reverse := by
    rw [collectEvents, graph.indexed_eq_walkable]
    exact ⟨rfl, rfl⟩
  rw [collected.1, collected.2, receiver, List.reverse_reverse]
  cases shape : plan.shapeViolation? with
  | some violation =>
      have enumerated :
          plan.enumeration graph.walkable =
            ⟨[], some (.violated violation)⟩ := by
        rw [enumeration, shape]
      simp only [job, enumerated] at outcome ⊢
      rw [outcome, loop, shape]
      exact ⟨rfl, rfl⟩
  | none =>
      have enumerated := enumeration_eq_keep sound shape
      simp only [job, enumerated, Enumeration.keep] at outcome ⊢
      cases failure : (plan.tuples graph).failure with
      | some error =>
          rw [failure] at outcome
          simp [outcome, loop, shape, failure, Except.map]
      | none =>
          rw [failure] at outcome
          rw [outcome, rows_of_run sound shape outcome]
          simp [loop, shape, failure, Except.map]

end Plan

end DeltaGraph
