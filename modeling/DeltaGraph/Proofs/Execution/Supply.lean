import DeltaGraph.Proofs.Execution.Pulling

/-!
# What streams supply

Which tuples a stream comes up with does not depend on how far the execution has
got: asked again and again, it supplies the bindings of an enumeration, and then
fails or ends as the enumeration does.  A relay supplies what it makes of each
tuple of its input, and so the last stream of a plan supplies what the plan
enumerates.  These are the tuples that an execution hands to the sink.
-/

namespace DeltaGraph

variable {σ : Type}

namespace Enumeration

variable {α β : Type}

/-- What is enumerated for each binding of an enumeration, and then its
failure. -/
def andThen
    (enumeration : Enumeration)
    (body : Binding → Enumeration) : Enumeration :=
  (each enumeration.bindings body).append ⟨[], enumeration.failure⟩

/-- Enumerations one after the other group in any way. -/
theorem append_assoc (first next last : Enumeration) :
    (first.append next).append last = first.append (next.append last) := by
  obtain ⟨bindings, failure⟩ := first
  obtain ⟨nextBindings, nextFailure⟩ := next
  cases failure <;> cases nextFailure <;> simp [append]

/-- Nothing follows an enumeration that ends in a failure. -/
theorem append_of_failure
    {first : Enumeration}
    {error : Error}
    (fails : first.failure = some error)
    (next : Enumeration) :
    first.append next = first := by
  rw [append, fails]

theorem each_append (items more : List α) (body : α → Enumeration) :
    each (items ++ more) body = (each items body).append (each more body) := by
  induction items with
  | nil => simp [each, append]
  | cons first rest inductionHypothesis =>
      exact (congrArg _ inductionHypothesis).trans (append_assoc _ _ _).symm

theorem each_map (items : List α) (change : α → β) (body : β → Enumeration) :
    each (items.map change) body =
      each items fun item => body (change item) := by
  rw [each, List.foldr_map]
  rfl

variable (body : Binding → Enumeration)

theorem andThen_cons
    (binding : Binding)
    (bindings : List Binding)
    (failure : Option Error) :
    andThen ⟨binding :: bindings, failure⟩ body =
      (body binding).append (andThen ⟨bindings, failure⟩ body) :=
  append_assoc _ _ _

theorem andThen_of_complete (bindings : List Binding) :
    andThen ⟨bindings, none⟩ body = each bindings body :=
  append_nothing _

/-- Continuing two enumerations one after the other continues each of them. -/
theorem andThen_append (first next : Enumeration) :
    (first.append next).andThen body =
      (first.andThen body).append (next.andThen body) := by
  obtain ⟨bindings, failure⟩ := first
  cases failure with
  | none =>
      rw [andThen_of_complete, append, andThen, each_append, append_assoc]
      rfl
  | some error =>
      have fails : (andThen ⟨bindings, some error⟩ body).failure ≠ none := by
        unfold andThen append
        split <;> simp_all
      obtain ⟨found, failed⟩ := Option.ne_none_iff_exists'.mp fails
      rw [append_of_failure rfl, append_of_failure failed]

theorem andThen_each (items : List α) (inner : α → Enumeration) :
    (each items inner).andThen body =
      each items fun item => (inner item).andThen body := by
  induction items with
  | nil => rfl
  | cons first rest inductionHypothesis =>
      exact (andThen_append body _ _).trans (congrArg _ inductionHypothesis)

theorem andThen_given (value : Except Error α) (inner : α → Enumeration) :
    (given value inner).andThen body =
      given value fun item => (inner item).andThen body := by
  cases value <;> rfl

/-- Continuing a continuation continues by the composed step. -/
theorem andThen_assoc
    (enumeration : Enumeration)
    (inner : Binding → Enumeration) :
    (enumeration.andThen inner).andThen body =
      enumeration.andThen fun binding => (inner binding).andThen body := by
  have split : enumeration.andThen inner =
      (each enumeration.bindings inner).append ⟨[], enumeration.failure⟩ := rfl
  have alone :
      andThen ⟨[], enumeration.failure⟩ body = ⟨[], enumeration.failure⟩ := by
    cases enumeration.failure <;> rfl
  rw [split, andThen_append, andThen_each, alone, andThen]

/-- Filtering a continued enumeration filters each continuation. -/
theorem keep_andThen (test : Binding → Bool) (enumeration : Enumeration) :
    (enumeration.andThen body).keep test =
      enumeration.andThen fun binding => (body binding).keep test := by
  rw [andThen, keep_append, keep_each]
  rfl

theorem keep_true (enumeration : Enumeration) :
    enumeration.keep (fun _ => true) = enumeration := by
  rw [keep, List.filter_true]

/-- Testing the bindings one after another keeps those that pass. -/
theorem andThen_passing (test : Binding → Bool) (enumeration : Enumeration) :
    (enumeration.andThen fun binding =>
      ⟨if test binding then [binding] else [], none⟩) =
      enumeration.keep test := by
  obtain ⟨bindings, failure⟩ := enumeration
  have passing :
      (bindings.flatMap fun binding => if test binding then [binding] else []) =
        bindings.filter test := by
    induction bindings with
    | nil => rfl
    | cons first rest inductionHypothesis =>
        rw [List.flatMap_cons, List.filter_cons, inductionHypothesis]
        split <;> rfl
  rw [andThen, each_of_complete fun _ _ => rfl, passing]
  exact congrArg (mk · failure) (List.append_nil _)

end Enumeration

namespace TupleStream

/-- However far the execution has got, the requests from a state on bring the
bindings of an enumeration, and then its failure or the end. -/
inductive Supplies (stream : TupleStream σ) : stream.State → Enumeration → Prop
  | ends {state : stream.State}
      (last : ∀ progress, (stream.next state progress).1 = .ok none) :
      Supplies stream state {}
  | fails {state : stream.State} {error : Error}
      (last : ∀ progress, (stream.next state progress).1 = .error error) :
      Supplies stream state ⟨[], some error⟩
  | item {state later : stream.State} {tuple : Binding}
      {bindings : List Binding}
      {failure : Option Error}
      (next : ∀ progress,
        (stream.next state progress).1 = .ok (some (tuple, later)))
      (rest : Supplies stream later ⟨bindings, failure⟩) :
      Supplies stream state ⟨tuple :: bindings, failure⟩

/-- A stream that has ended hands on no more tuples, and one that comes up with
a tuple hands it on before it is asked again.  Nothing has failed. -/
inductive Drains
    (stream : TupleStream σ)
    (consume : Binding → Execution σ Unit) :
    stream.State → Progress σ → List Binding → Progress σ → Prop
  | ends {state : stream.State} {progress final : Progress σ}
      (last : stream.next state progress = (.ok none, final)) :
      Drains stream consume state progress [] final
  | hands {state rest : stream.State} {progress asked taken final : Progress σ}
      {tuple : Binding} {tuples : List Binding}
      (next : stream.next state progress = (.ok (some (tuple, rest)), asked))
      (consumed : consume tuple asked = (.ok (), taken))
      (drains : Drains stream consume rest taken tuples final) :
      Drains stream consume state progress (tuple :: tuples) final

variable {stream : TupleStream σ} {consume : Binding → Execution σ Unit}

/-- An execution hands on the same tuples whenever it is told. -/
theorem Drains.unique
    {state : stream.State}
    {progress final last : Progress σ}
    {tuples others : List Binding}
    (drains : stream.Drains consume state progress tuples final)
    (again : stream.Drains consume state progress others last) :
    tuples = others ∧ final = last := by
  induction drains generalizing others with
  | ends ended =>
      cases again with
      | ends endedToo =>
          cases ended.symm.trans endedToo
          exact ⟨rfl, rfl⟩
      | hands next => cases ended.symm.trans next
  | hands next consumed _ inductionHypothesis =>
      cases again with
      | ends ended => cases next.symm.trans ended
      | hands nextToo consumedToo rest =>
          cases next.symm.trans nextToo
          cases consumed.symm.trans consumedToo
          obtain ⟨rfl, rfl⟩ := inductionHypothesis rest
          exact ⟨rfl, rfl⟩

/-- A stream that hands tuples on to the end is drained. -/
theorem Drains.drain_eq
    {state : stream.State}
    {progress final : Progress σ}
    {tuples : List Binding}
    (drains : stream.Drains consume state progress tuples final) :
    stream.drain consume state progress = (.ok (), final) := by
  induction drains with
  | ends last =>
      rw [drain_eq_bind, run_bind_ok last]
      rfl
  | hands next consumed _ inductionHypothesis =>
      rw [drain_eq_bind, run_bind_ok next]
      exact (run_bind_ok consumed).trans inductionHypothesis

namespace Supplies

variable {state other : stream.State} {enumeration : Enumeration}

/-- A request that goes on as one from another state does supplies the same. -/
theorem of_next_eq
    (supplies : stream.Supplies other enumeration)
    (same : ∀ progress, ∃ later,
      stream.next state progress = stream.next other later) :
    stream.Supplies state enumeration := by
  have outcome {result : Except Error (Option (Binding × stream.State))}
      (known : ∀ progress, (stream.next other progress).1 = result)
      (progress : Progress σ) :
      (stream.next state progress).1 = result := by
    obtain ⟨later, equal⟩ := same progress
    rw [equal, known]
  cases supplies with
  | ends last => exact .ends (outcome last)
  | fails last => exact .fails (outcome last)
  | item next rest => exact .item (outcome next) rest

/-- A drain that succeeds hands on what the stream supplies. -/
theorem drains
    (supplies : stream.Supplies state enumeration)
    {progress final : Progress σ}
    (succeeds : stream.drain consume state progress = (.ok (), final)) :
    stream.Drains consume state progress enumeration.bindings final := by
  induction supplies generalizing progress with
  | ends last =>
      rw [drain_eq_bind] at succeeds
      obtain ⟨pulled, middle, next, rest⟩ := run_bind_eq_ok.mp succeeds
      cases (congrArg Prod.fst next).symm.trans (last progress)
      cases rest
      exact .ends next
  | fails last =>
      rw [drain_eq_bind] at succeeds
      obtain ⟨pulled, middle, next, rest⟩ := run_bind_eq_ok.mp succeeds
      cases (congrArg Prod.fst next).symm.trans (last progress)
  | item known _ inductionHypothesis =>
      rw [drain_eq_bind] at succeeds
      obtain ⟨pulled, asked, next, handed⟩ := run_bind_eq_ok.mp succeeds
      cases (congrArg Prod.fst next).symm.trans (known progress)
      obtain ⟨_, taken, consumed, rest⟩ := run_bind_eq_ok.mp handed
      exact .hands next consumed (inductionHypothesis rest)

end Supplies

end TupleStream

/-! ## Relays -/

namespace Relay

variable {relay : Relay σ} {input : TupleStream σ}

/-- However far the execution has got, a tuple of the input leads to an error,
or to a buffer that gives tuples. -/
inductive Leaves
    (relay : Relay σ)
    (Kept : relay.Memory → Prop)
    (filling : Execution σ (relay.Buffer × relay.Memory)) :
    Except Error (List Binding) → Prop
  | fails {error : Error}
      (outcome : ∀ progress, (filling progress).1 = .error error) :
      Leaves relay Kept filling (.error error)
  | buffers {buffer : relay.Buffer} {memory : relay.Memory}
      {tuples : List Binding}
      (gives : relay.Gives buffer tuples) (kept : Kept memory)
      (outcome : ∀ progress, (filling progress).1 = .ok (buffer, memory)) :
      Leaves relay Kept filling (.ok tuples)

/-- A relay makes tuples of each tuple of the input, whatever it has kept from
earlier ones and however far the execution has got. -/
structure Makes
    (relay : Relay σ)
    (made : Binding → Except Error (List Binding)) : Prop where
  leaves : ∃ Kept : relay.Memory → Prop, Kept relay.blank ∧
    ∀ memory, Kept memory →
      ∀ base, relay.Leaves Kept (relay.fill memory base) (made base)

/-- What is made of a tuple, as an enumeration. -/
def listing
    (made : Binding → Except Error (List Binding))
    (base : Binding) : Enumeration :=
  .given (made base) fun tuples => ⟨tuples, none⟩

/-- A relay that gives its buffer out supplies these tuples before what it
supplies afterwards. -/
theorem Gives.supplies
    {buffer : relay.Buffer}
    {tuples : List Binding}
    (gives : relay.Gives buffer tuples)
    {state : input.State}
    {memory : relay.Memory}
    {enumeration : Enumeration}
    (supplies :
      (relay.onto input).Supplies (relay.state state none memory) enumeration) :
    (relay.onto input).Supplies (relay.state state (some buffer) memory)
      (.append ⟨tuples, none⟩ enumeration) := by
  induction gives with
  | @nothing buffer spent =>
      have emptied : (some buffer).bind relay.take? = none := spent
      refine supplies.of_next_eq fun progress => ⟨progress, ?_⟩
      rw [next_of_spent state emptied memory, next_of_fresh]
  | tuple taken _ inductionHypothesis =>
      refine .item (fun progress => ?_) inductionHypothesis
      rw [next_of_taken state taken memory]
      rfl

/-- A relay supplies what it makes of the tuples that its input supplies. -/
theorem Makes.supplies
    {made : Binding → Except Error (List Binding)}
    (makes : relay.Makes made)
    {state : input.State}
    {enumeration : Enumeration}
    (supplies : input.Supplies state enumeration) :
    (relay.onto input).Supplies (relay.state state none relay.blank)
      (enumeration.andThen (listing made)) := by
  obtain ⟨Kept, blank, leaves⟩ := makes.leaves
  -- What is kept changes from one tuple to the next, so the induction is for
  -- all of it.
  suffices general : ∀ memory, Kept memory → (relay.onto input).Supplies
      (relay.state state none memory) (enumeration.andThen (listing made)) from
    general _ blank
  induction supplies with
  | ends last =>
      intro memory _
      refine .ends fun progress => ?_
      obtain ⟨later, run⟩ := exists_bind_of_outcome_ok (last progress)
      rw [next_of_fresh, run]
      rfl
  | fails last =>
      intro memory _
      refine .fails fun progress => ?_
      rw [next_of_fresh, outcome_bind_error (last progress)]
  | @item state later base bindings failure next rest inductionHypothesis =>
      intro memory kept
      have asked (progress : Progress σ) : ∃ after,
          (relay.onto input).next (relay.state state none memory) progress =
            (relay.fill memory base >>= fun filled =>
              (relay.onto input).next
                (relay.state later (some filled.1) filled.2)) after := by
        rw [next_of_fresh]
        exact exists_bind_of_outcome_ok (next progress)
      rw [Enumeration.andThen_cons, listing]
      have left := leaves memory kept base
      revert asked left
      generalize relay.fill memory base = filling
      generalize made base = tuples?
      intro asked left
      cases left with
      | @fails error outcome =>
          -- The stream ends with the failure, so what the input supplies next
          -- is never asked for.
          refine .fails fun progress => ?_
          obtain ⟨after, run⟩ := asked progress
          rw [run, outcome_bind_error (outcome after)]
      | @buffers buffer memory tuples gives kept outcome =>
          refine (gives.supplies (inductionHypothesis memory kept)).of_next_eq
            fun progress => ?_
          obtain ⟨after, run⟩ := asked progress
          obtain ⟨filled, rest⟩ := exists_bind_of_outcome_ok (outcome after)
          exact ⟨filled, run.trans rest⟩

end Relay

/-! ## The streams of a plan -/

namespace Plan

/-- The tuples that bind every relation to an edge. -/
def completions (plan : Plan) (walkable : WalkableGraph) (base : Binding) :
    Except Error (List Binding) := do
  let choices ←
    plan.lookups.mapM fun lookup => lookup.resolve walkable base.vertices
  return (products choices).map fun edges => { base with edges }

/-- The relations of a tuple are resolved, and then the conditions are
tested. -/
theorem resolved_eq_listing
    (plan : Plan)
    (walkable : WalkableGraph)
    (base : Binding) :
    plan.resolved walkable base.vertices =
      (Relay.listing (plan.completions walkable) base).keep
        (plan.accepts walkable.graph) := by
  rw [resolved, Relay.listing, completions]
  cases plan.lookups.mapM fun lookup =>
    lookup.resolve walkable base.vertices with
  | error error => rfl
  | ok choices =>
      exact congrArg (Enumeration.mk · none)
        (plan.chosen_eq_products walkable.graph base.vertices choices [])

end Plan

namespace Job

open Execution

variable {job : Job σ}

/-- The extending operator makes of a tuple its extensions by the admissible
candidates of the right type. -/
theorem makes_extension (job : Job σ) (stage : Stage) (type : Option TypeId) :
    (job.extension stage type).Makes fun base => do
      let candidates ← stage.admissible job.walkable base.vertices
      return (candidates.filter (job.walkable.graph.hasType type)).map
        base.push := by
  -- The list of all vertices is kept once a stage without rules has read it.
  refine ⟨fun vertexIds : Option (List VertexId) =>
    vertexIds.getD job.walkable.graph.vertexIds = job.walkable.graph.vertexIds,
      rfl, ?_⟩
  intro vertexIds kept base
  obtain ⟨later, keeps, candidates⟩ :=
    job.candidates_eq stage type vertexIds base kept
  simp only [extension, candidates]
  cases stage.admissible job.walkable base.vertices with
  | error error => exact .fails fun _ => rfl
  | ok admitted =>
      exact .buffers (job.gives_pending stage type ⟨base, _, 0⟩) keeps
        fun _ => rfl

/-- The resolving operator makes of a tuple its completions by edges. -/
theorem makes_resolution (job : Job σ) :
    job.resolution.Makes (job.plan.completions job.walkable) := by
  refine ⟨fun _ => True, trivial, fun _ _ base => ?_⟩
  simp only [resolution, Plan.completions, mapM_liftM]
  cases job.plan.lookups.mapM fun lookup =>
    lookup.resolve job.walkable base.vertices with
  | error error => exact .fails fun _ => rfl
  | ok choices =>
      exact .buffers (job.gives_ofTuple base choices) trivial fun _ => rfl

/-- The filter makes of a row itself, or nothing. -/
theorem makes_filtering (job : Job σ) :
    job.filtering.Makes fun base =>
      .ok (if job.plan.accepts job.walkable.graph base then [base]
        else []) := by
  refine ⟨fun _ => True, trivial, fun _ _ base => ?_⟩
  by_cases passes : job.plan.accepts job.walkable.graph base = true
  · have holds : job.plan.conditions.all
        (·.holds job.walkable.graph base.vertices base.edges) = true := passes
    rw [if_pos passes]
    simp only [filtering, if_pos holds]
    exact .buffers (.tuple rfl (.nothing rfl)) trivial fun _ => rfl
  · have fails : ¬ job.plan.conditions.all
        (·.holds job.walkable.graph base.vertices base.edges) = true := passes
    rw [if_neg passes]
    simp only [filtering, if_neg fails]
    exact .buffers (.nothing rfl) trivial fun _ => rfl

section

variable {stage : Stage} {sourceType targetType : Option TypeId}

theorem outcome_scanStream (state : ScanState) (progress : Progress σ) :
    ((job.scanStream stage sourceType targetType).next state progress).1 =
      job.nextPair stage sourceType targetType state := rfl

theorem supplies_of_nextPair_eq
    {state other : ScanState}
    {enumeration : Enumeration}
    (supplies :
      (job.scanStream stage sourceType targetType).Supplies other enumeration)
    (same : job.nextPair stage sourceType targetType state =
      job.nextPair stage sourceType targetType other) :
    (job.scanStream stage sourceType targetType).Supplies state enumeration :=
  supplies.of_next_eq fun progress =>
    ⟨progress,
      congrFun ((next_scanStream same).trans (next_scanStream rfl).symm)
        progress⟩

/-- The candidates of a source come before the next source. -/
theorem supplies_pending {sources : List VertexId} {enumeration : Enumeration}
    (supplies : (job.scanStream stage sourceType targetType).Supplies
      (ScanState.mk (some sources) none) enumeration) (pending : Pending) :
    (job.scanStream stage sourceType targetType).Supplies
      (ScanState.mk (some sources) (some pending))
      (.append
        ⟨(pending.candidates.drop pending.next).map pending.base.push, none⟩
        enumeration) := by
  induction left : pending.candidates.drop pending.next
    generalizing pending with
  | nil =>
      exact supplies_of_nextPair_eq supplies
        (nextPair_of_spent (Pending.take?_of_nil left) _)
  | cons candidate rest inductionHypothesis =>
      have later :=
        inductionHypothesis { pending with next := pending.next + 1 }
        (Pending.drop_succ left)
      refine .item (fun progress => ?_) later
      exact (outcome_scanStream _ progress).trans
        (nextPair_of_taken (Pending.take?_of_cons left) (some sources))

/-- The scan supplies the pairs of each source of the type. -/
theorem supplies_scanStream (sources : List VertexId) :
    (job.scanStream stage sourceType targetType).Supplies
      (ScanState.mk (some sources) none)
      (.each (sources.filter (job.walkable.graph.hasType sourceType))
        fun source =>
          .given (stage.intersection job.walkable [source]) fun candidates =>
            ⟨(candidates.filter (job.walkable.graph.hasType targetType)).map
              fun target =>
                ⟨[source, target], []⟩, none⟩) := by
  induction sources with
  | nil => exact .ends fun _ => rfl
  | cons source rest inductionHypothesis =>
      by_cases typed : job.walkable.graph.hasType sourceType source
      · rw [List.filter_cons_of_pos typed, Enumeration.each, List.foldr_cons, ←
          Enumeration.each]
        cases found : stage.intersection job.walkable [source] with
        | error error =>
            refine .fails fun progress => ?_
            rw [outcome_scanStream, nextPair_of_sources,
              pairFrom_of_error targetType typed found rest]
            rfl
        | ok admitted =>
            refine supplies_of_nextPair_eq (supplies_pending inductionHypothesis
              ⟨⟨[source], []⟩,
                admitted.filter (job.walkable.graph.hasType targetType), 0⟩) ?_
            rw [nextPair_of_sources, pairFrom_of_ok targetType typed found rest]
      · rw [List.filter_cons_of_neg typed]
        refine supplies_of_nextPair_eq inductionHypothesis ?_
        rw [nextPair_of_sources, pairFrom, if_neg typed]
        rfl

end

/-- Behind the streams of the further stages, what is left is to resolve
complete tuples of vertices. -/
theorem supplies_extended (job : Job σ) (rest : List (Stage × Option TypeId))
    {input : TupleStream σ} {enumeration : Enumeration}
    (supplies : input.Supplies input.start enumeration) :
    let extended :=
      rest.foldl
        (fun input (stage, type) => (job.extension stage type).onto input)
      input
    ∃ reached, extended.Supplies extended.start reached ∧
      (reached.andThen fun base =>
        job.plan.resolved job.walkable base.vertices) =
        enumeration.andThen fun base =>
          job.plan.extended job.walkable rest base.vertices := by
  induction rest generalizing input enumeration with
  | nil => exact ⟨enumeration, supplies, rfl⟩
  | cons first rest inductionHypothesis =>
      obtain ⟨stage, type⟩ := first
      obtain ⟨reached, suppliesRest, resolved⟩ :=
        inductionHypothesis ((job.makes_extension stage type).supplies supplies)
      refine ⟨reached, suppliesRest, resolved.trans ?_⟩
      rw [Enumeration.andThen_assoc]
      refine congrArg enumeration.andThen (funext fun base => ?_)
      rw [Relay.listing, Enumeration.andThen_given, Plan.extended]
      cases stage.admissible job.walkable base.vertices with
      | error error => rfl
      | ok candidates =>
          refine (Enumeration.andThen_of_complete _ _).trans ?_
          rw [Enumeration.each_map]
          rfl

/-- The last stream of a plan supplies what the plan enumerates. -/
theorem supplies_pipeline
    (job : Job σ)
    (first : Rule)
    (others : Stage)
    (sourceType targetType : Option TypeId)
    (rest : List (Stage × Option TypeId)) :
    let stream := job.pipeline (first :: others) sourceType targetType rest
    stream.Supplies stream.start
      (job.plan.scanned job.walkable first (first :: others) sourceType
        targetType rest) := by
  have opened : job.nextPair (first :: others) sourceType targetType {} =
      job.nextPair (first :: others) sourceType targetType
        ⟨some (job.walkable.graph.sources first.version first.direction),
          none⟩ := rfl
  obtain ⟨reached, extended, complete⟩ :=
    job.supplies_extended rest
      (supplies_of_nextPair_eq (supplies_scanStream _) opened)
  have resolved := job.makes_resolution.supplies extended
  have enumerated :
      job.plan.scanned job.walkable first (first :: others) sourceType
        targetType
      rest =
        (reached.andThen
          (Relay.listing (job.plan.completions job.walkable))).keep
        (job.plan.accepts job.walkable.graph) := by
    rw [Enumeration.keep_andThen]
    simp only [← Plan.resolved_eq_listing]
    rw [complete, Enumeration.andThen_each, Plan.scanned]
    simp only [Enumeration.andThen_given, Enumeration.andThen_of_complete,
      Enumeration.each_map]
  rw [enumerated, pipeline]
  split
  · rename_i unconditional
    have all : job.plan.accepts job.walkable.graph = fun _ => true := by
      funext tuple
      rw [Plan.accepts, List.isEmpty_iff.mp unconditional, List.all_nil]
    rw [all, Enumeration.keep_true]
    exact resolved
  · rw [← Enumeration.andThen_passing]
    exact job.makes_filtering.supplies resolved

/-- Executing a plan hands tuples to the sink, one after another, and
succeeds. -/
inductive HandsOn (job : Job σ) (start : Progress σ) (tuples : List Binding)
    (final : Progress σ) : Prop
  | drains {stage : Stage} {rest : List Stage}
      {sourceType targetType : Option TypeId}
      {types : List (Option TypeId)} (shaped : job.plan.shapeViolation? = none)
      (stages : job.plan.stages = stage :: rest)
      (typed : job.plan.types = sourceType :: targetType :: types)
      (drains :
        (job.pipeline stage sourceType targetType (rest.zip types)).Drains
          job.output
        (job.pipeline stage sourceType targetType (rest.zip types)).start start
          tuples final) :
      HandsOn job start tuples final

/-- An execution that hands tuples on is one that succeeds, and hands on nothing
else. -/
theorem HandsOn.pull_eq {start final : Progress σ} {tuples : List Binding}
    (handsOn : job.HandsOn start tuples final) :
    job.pull start = (.ok (), final) ∧
      ∀ others last, job.HandsOn start others last → others = tuples := by
  cases handsOn with
  | drains shaped stages typed drains =>
      constructor
      · rw [pull, shaped, stages, typed]
        exact drains.drain_eq
      · rintro others last ⟨_, stagesToo, typedToo, again⟩
        cases stages.symm.trans stagesToo
        cases typed.symm.trans typedToo
        exact (again.unique drains).1

/-- An execution that succeeds hands on the bindings that the plan
enumerates. -/
theorem handsOn_of_pull
    {start final : Progress σ}
    (succeeds : job.pull start = (.ok (), final)) :
    job.HandsOn start (job.plan.enumeration job.walkable).bindings final := by
  unfold pull at succeeds
  cases shaped : job.plan.shapeViolation? with
  | some violation =>
      rw [shaped] at succeeds
      cases succeeds
  | none =>
      obtain ⟨first, others, rest, sourceType, targetType, types, stages,
          typed⟩ :=
        Plan.exists_start shaped
      have enumerated : job.plan.enumeration job.walkable =
          job.plan.scanned job.walkable first (first :: others) sourceType
            targetType
            (rest.zip types) := by
        rw [Plan.enumeration, shaped, stages, typed]
      have supplies :=
        job.supplies_pipeline first others sourceType targetType
          (rest.zip types)
      rw [shaped, stages, typed] at succeeds
      rw [enumerated]
      exact .drains shaped stages typed (supplies.drains succeeds)

end Job

end DeltaGraph
