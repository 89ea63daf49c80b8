import DeltaGraph.Proofs.Execution.Delivery
import DeltaGraph.Proofs.Graph.Run

/-!
# Plans that do not fail

On a sound graph a well-formed plan cannot fail by itself.  Its parts fit
together, every rule that is read starts at a bound vertex, and a tuple that is
bound completely finds an edge for every relation.  What is left to fail is the
delivery of its rows.
-/

namespace DeltaGraph

namespace Plan

/-- The stages of a plan, with the types of the vertices that they bind. -/
def steps (plan : Plan) : List (Stage × Option TypeId) :=
  plan.stages.zip plan.types.tail

/-- The loops of a plan come to a tuple of vertices, with stages that remain. -/
inductive Reaches (plan : Plan) (graph : Graph) :
    List (Stage × Option TypeId) → List VertexId → Prop
  | source {first : Rule} {others : Stage} {rest : List Stage}
      {source : VertexId}
      (stages : plan.stages = (first :: others) :: rest)
      (tried : source ∈ graph.sources first.version first.direction)
      (typed : ∀ type ∈ plan.types.head?, graph.hasType type source) :
      Reaches plan graph plan.steps [source]
  | extension {stage : Stage} {type : Option TypeId}
      {rest : List (Stage × Option TypeId)}
      {bound candidates : List VertexId} {vertex : VertexId}
      (reached : Reaches plan graph ((stage, type) :: rest) bound)
      (admitted : stage.admissible graph.walkable bound = .ok candidates)
      (candidate : vertex ∈ candidates) (typed : graph.hasType type vertex) :
      Reaches plan graph rest (bound ++ [vertex])

/-- Executing the plan on the graph succeeds if all rows are accepted, and
nothing that it checks on the way can be found wanting. -/
structure RunsOn (plan : Plan) (graph : Graph) : Prop where
  shaped : plan.shapeViolation? = none
  bound {stage : Stage} {type : Option TypeId}
    {rest : List (Stage × Option TypeId)}
    {vertices : List VertexId}
    (reached : plan.Reaches graph ((stage, type) :: rest) vertices)
    {rule : Rule} (used : rule ∈ stage) : rule.slot < vertices.length
  resolved {vertices : List VertexId} (reached : plan.Reaches graph [] vertices)
    {lookup : EdgeLookup} (used : lookup ∈ plan.lookups) :
    ∃ edge edges, lookup.resolve graph.walkable vertices = .ok (edge :: edges)
  succeeds {σ : Type} {deliver : Delivery σ}
    (accepting : ∀ event receiver, (deliver event receiver).1 = .ok ())
    (receiver : σ) (counters : Counters) :
    ∃ counts,
      ((Job.mk plan graph.indexed deliver).execute receiver counters).1 =
        .ok counts

/-- Executing the plan succeeds on every graph, also in the midst of a batch. -/
def RunsSafely (plan : Plan) : Prop :=
  ∀ {graph : Graph}, graph.Reachable → plan.RunsOn graph

variable {graph : Graph}

theorem Meets.length_eq
    {stages : List (Stage × Option TypeId)}
    {bound later : List VertexId}
    (meets : Meets graph stages bound later) :
    later.length = stages.length := by
  induction stages generalizing bound later with
  | nil => rw [meets, List.length_nil, List.length_nil]
  | cons first rest inductionHypothesis =>
      cases later with
      | nil => cases meets
      | cons vertex later => simpa using inductionHypothesis meets.2.2

/-- A vertex that one more stage admits is met by it. -/
theorem Meets.concat
    {stages : List (Stage × Option TypeId)}
    {stage : Stage}
    {type : Option TypeId}
    {bound later : List VertexId}
    {vertex : VertexId}
    (meets : Meets graph stages bound later)
    (admitted : vertex ∈ graph.vertices ∧
      ∀ rule ∈ stage, rule.Admits graph (bound ++ later) vertex)
    (typed : graph.hasType type vertex) :
    Meets graph (stages ++ [(stage, type)]) bound (later ++ [vertex]) := by
  induction stages generalizing bound later with
  | nil =>
      cases meets
      rw [List.append_nil] at admitted
      exact ⟨admitted, typed, rfl⟩
  | cons first rest inductionHypothesis =>
      cases later with
      | nil => cases meets
      | cons next later =>
          refine ⟨meets.1, meets.2.1, inductionHypothesis meets.2.2 ?_⟩
          simpa using admitted

namespace WellFormed

variable {plan : Plan}

theorem slot_lt_of_steps
    (wellFormed : plan.WellFormed)
    {before rest : List (Stage × Option TypeId)}
    {stage : Stage}
    {type : Option TypeId}
    (split : plan.steps = before ++ (stage, type) :: rest)
    {rule : Rule}
    (used : rule ∈ stage) :
    rule.slot < before.length + 1 := by
  have found : plan.steps[before.length]? = some (stage, type) := by
    simp [split]
  have listed := (List.getElem?_zip_eq_some.mp found).1
  exact Nat.lt_succ_of_le (wellFormed.rules listed used).1

/-- The vertices that the loops have bound meet the stages that are done. -/
theorem meets_of_reaches (wellFormed : plan.WellFormed) (sound : graph.Sound)
    {rest : List (Stage × Option TypeId)} {bound : List VertexId}
    (reached : plan.Reaches graph rest bound) :
    ∃ before source later, plan.steps = before ++ rest ∧
      bound = source :: later ∧
      Meets graph before [source] later := by
  induction reached with
  | source _ _ _ => exact ⟨[], _, [], rfl, rfl, rfl⟩
  | @extension stage type rest bound candidates vertex _ admitted candidate
      typed
      inductionHypothesis =>
      obtain ⟨before, source, later, split, rfl, meets⟩ := inductionHypothesis
      -- A stage can be read only because its slots are bound, which needs the
      -- stages before.
      have inside : ∀ rule ∈ stage, rule.slot < (source :: later).length := by
        intro rule used
        rw [List.length_cons, meets.length_eq]
        exact wellFormed.slot_lt_of_steps split used
      obtain ⟨members, found, _, member⟩ :=
        stage.admissible_eq sound (source :: later) inside
      rw [admitted] at found
      cases found
      exact ⟨before ++ [(stage, type)], source, later ++ [vertex],
        by simp [split], rfl, meets.concat ((member vertex).mp candidate) typed⟩

theorem slot_lt_of_reaches
    (wellFormed : plan.WellFormed)
    (sound : graph.Sound)
    {stage : Stage}
    {type : Option TypeId}
    {rest : List (Stage × Option TypeId)}
    {vertices : List VertexId}
    (reached : plan.Reaches graph ((stage, type) :: rest) vertices)
    {rule : Rule}
    (used : rule ∈ stage) :
    rule.slot < vertices.length := by
  obtain ⟨before, source, later, split, rfl, meets⟩ :=
    wellFormed.meets_of_reaches sound reached
  rw [List.length_cons, meets.length_eq]
  exact wellFormed.slot_lt_of_steps split used

/-- The rule that read a relation has seen one of its edges. -/
theorem resolve_of_reaches
    (wellFormed : plan.WellFormed)
    (sound : graph.Sound)
    {vertices : List VertexId}
    (reached : plan.Reaches graph [] vertices)
    {lookup : EdgeLookup}
    (used : lookup ∈ plan.lookups) :
    ∃ edge edges,
      lookup.resolve graph.walkable vertices = .ok (edge :: edges) := by
  obtain ⟨before, source, later, split, rfl, meets⟩ :=
    wellFormed.meets_of_reaches sound reached
  obtain ⟨sourceType, targetType, types, typed⟩ := wellFormed.types_eq
  rw [List.append_nil] at split
  rw [← split, steps, typed, List.tail_cons] at meets
  obtain ⟨edge, finds⟩ := ((wellFormed.meets_iff typed).mp meets).2 lookup used
  obtain ⟨edges, resolved, _, member⟩ := EdgeLookup.resolve_eq sound finds
  cases edges with
  | nil => exact absurd ((member edge).mpr finds) List.not_mem_nil
  | cons first others => exact ⟨first, others, resolved⟩

end WellFormed

end Plan

theorem Delivery.all_of_accepting
    {σ : Type}
    {deliver : Delivery σ}
    (accepting : ∀ event receiver, (deliver event receiver).1 = .ok ())
    (events : List Event)
    (receiver : σ) :
    (deliver.all events receiver).1 = .ok () := by
  induction events generalizing receiver with
  | nil => rfl
  | cons event rest inductionHypothesis =>
      have first :
          deliver event receiver = (.ok (), (deliver event receiver).2) :=
        Prod.ext (accepting event receiver) rfl
      rw [Delivery.all, run_bind_ok first]
      exact inductionHypothesis _

/-- A well-formed plan runs on every graph. -/
theorem Plan.WellFormed.runsSafely
    {plan : Plan}
    (wellFormed : plan.WellFormed) :
    plan.RunsSafely := by
  intro graph reachable
  have sound := reachable.sound
  constructor
  case shaped => exact wellFormed.shapeViolation?
  case bound => exact wellFormed.slot_lt_of_reaches sound
  case resolved => exact wellFormed.resolve_of_reaches sound
  case succeeds =>
    intro σ deliver accepting receiver counters
    have delivered :=
      Delivery.all_of_accepting accepting (plan.events graph) receiver
    obtain ⟨counts, outcome, _⟩ :=
      (wellFormed.delivers sound deliver).success counters delivered
    exact ⟨counts, outcome⟩

end DeltaGraph
