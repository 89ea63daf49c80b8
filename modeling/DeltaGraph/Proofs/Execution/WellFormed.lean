import DeltaGraph.Proofs.Execution.Bindings

/-!
# Executing well-formed plans

A well-formed plan is executed without a failure of its own: its rows are
delivered one after another, each once, and they are the rows of the bindings
that the plan admits.
-/

namespace DeltaGraph

theorem Rule.admits_append
    {rule : Rule}
    {graph : Graph}
    {bound later : List VertexId}
    (inside : rule.slot < bound.length)
    (vertex : VertexId) :
    rule.Admits graph (bound ++ later) vertex ↔
      rule.Admits graph bound vertex := by
  rw [Rule.Admits, Rule.Admits, List.getElem?_append_left inside]

namespace Plan

/-- Every rule reads a relation from a vertex that is bound by then, every
relation is read by a rule, and the columns show every slot. -/
structure WellFormed (plan : Plan) : Prop where
  stages : plan.stages.length + 1 = plan.order.length
  types : plan.types.length = plan.order.length
  start : ∃ rule others rest, plan.stages = (rule :: others) :: rest
  columns : ∀ column ∈ plan.columns, column < plan.order.length
  shown : ∀ slot < plan.order.length, slot ∈ plan.columns
  rules :
    ∀ {index : Nat} {stage : Stage} {rule : Rule},
      plan.stages[index]? = some stage →
      rule ∈ stage →
      rule.slot ≤ index ∧ ∃ lookup ∈ plan.lookups, lookup.Reads (index + 1) rule
  lookups :
    ∀ lookup ∈ plan.lookups, ∃ (index : Nat) (stage : Stage) (rule : Rule),
      plan.stages[index]? = some stage ∧ rule ∈ stage ∧
        lookup.Reads (index + 1) rule

/-- The binding binds every slot to a known vertex of the type asked for, and
every relation to an edge, and it passes the conditions. -/
def Admits (plan : Plan) (graph : Graph) (binding : Binding) : Prop :=
  List.Forall₂
    (fun type vertex =>
      vertex ∈ graph.vertices ∧ graph.hasType type vertex = true)
      plan.types binding.vertices ∧
    plan.Resolves graph binding

/-- The later vertices meet the remaining stages if they are known, have the
types asked for and are admitted by every rule. -/
theorem meets_iff
    {graph : Graph}
    {stages : List (Stage × Option TypeId)}
    {bound : List VertexId}
    (inside : Inside stages bound.length)
    (later : List VertexId) :
    Meets graph stages bound later ↔
      List.Forall₂ (fun stage vertex =>
          vertex ∈ graph.vertices ∧ graph.hasType stage.2 vertex = true) stages
            later ∧
        ∀ (index : Nat) (stage : Stage × Option TypeId) (vertex : VertexId),
          stages[index]? = some stage → later[index]? = some vertex →
            ∀ rule ∈ stage.1, rule.Admits graph (bound ++ later) vertex := by
  induction stages generalizing bound later with
  | nil => simp [Meets]
  | cons first rest inductionHypothesis =>
      obtain ⟨stage, type⟩ := first
      cases later with
      | nil => simp [Meets]
      | cons vertex later =>
          have insideRest : Inside rest (bound ++ [vertex]).length := by
            simpa using inside.2
          have step := inductionHypothesis insideRest later
          have here : (∀ rule ∈ stage, rule.Admits graph bound vertex) ↔
              ∀ rule ∈ stage,
                rule.Admits graph (bound ++ vertex :: later) vertex := by
            refine forall₂_congr fun rule member => ?_
            exact (Rule.admits_append (inside.1 rule member) vertex).symm
          rw [Meets, step, here, List.forall₂_cons]
          simp only [List.append_assoc, List.cons_append, List.nil_append]
          constructor
          · rintro ⟨⟨known, admits⟩, typed, others, rules⟩
            refine ⟨⟨⟨known, typed⟩, others⟩,
              fun index other bound found foundBound => ?_⟩
            cases index with
            | zero =>
                cases found
                cases foundBound
                exact admits
            | succ index => exact rules index other bound found foundBound
          · rintro ⟨⟨⟨known, typed⟩, others⟩, rules⟩
            exact ⟨⟨known, rules 0 _ vertex rfl rfl⟩, typed, others,
              fun index other bound found foundBound =>
                rules (index + 1) other bound found foundBound⟩

theorem inside_of_rules
    {stages : List (Stage × Option TypeId)}
    {count : Nat}
    (inside : ∀ (index : Nat) (stage : Stage × Option TypeId),
      stages[index]? = some stage →
        ∀ rule ∈ stage.1, rule.slot < count + index) :
    Inside stages count := by
  induction stages generalizing count with
  | nil => trivial
  | cons first rest inductionHypothesis =>
      obtain ⟨stage, type⟩ := first
      refine ⟨inside 0 (stage, type) rfl,
        inductionHypothesis fun index other found rule used => ?_⟩
      have bound := inside (index + 1) other found rule used
      omega

namespace WellFormed

variable {plan : Plan} {graph : Graph}

theorem shapeViolation? (wellFormed : plan.WellFormed) :
    plan.shapeViolation? = none := by
  obtain ⟨rule, others, rest, stages⟩ := wellFormed.start
  have count := wellFormed.stages
  have types := wellFormed.types
  have columns : plan.columns.any (plan.order.length ≤ ·) = false := by
    refine List.any_eq_false.mpr fun column member => ?_
    have below := wellFormed.columns column member
    simp only [decide_eq_true_eq]
    omega
  have enough :
      ¬ (plan.order.length < 2 ∨ plan.stages.length ≠ plan.order.length - 1 ∨
        plan.types.length ≠ plan.order.length) := by
    rw [stages, List.length_cons] at *
    omega
  rw [Plan.shapeViolation?, if_neg enough, columns, stages]
  rfl

/-- A stage with the type of the slot that it binds. -/
theorem stage_and_type
    (wellFormed : plan.WellFormed)
    {sourceType : Option TypeId}
    {types : List (Option TypeId)}
    (split : plan.types = sourceType :: types)
    {index : Nat}
    {stage : Stage}
    (found : plan.stages[index]? = some stage) :
    ∃ type, (plan.stages.zip types)[index]? = some (stage, type) := by
  have count := wellFormed.stages
  have same := wellFormed.types
  have inside : index < plan.stages.length :=
    (List.getElem?_eq_some_iff.mp found).1
  rw [split, List.length_cons] at same
  have typed : index < types.length := by omega
  refine ⟨types[index], ?_⟩
  rw [List.getElem?_zip_eq_some]
  exact ⟨found, List.getElem?_eq_getElem typed⟩

/-- A tuple meets the stages of a well-formed plan exactly if its vertices are
known and have the types asked for, and every relation finds an edge. -/
theorem meets_iff (wellFormed : plan.WellFormed) {sourceType : Option TypeId}
    {types : List (Option TypeId)} (split : plan.types = sourceType :: types)
    {source : VertexId} {later : List VertexId} :
    Meets graph (plan.stages.zip types) [source] later ↔
      List.Forall₂ (fun type vertex =>
          vertex ∈ graph.vertices ∧ graph.hasType type vertex = true) types
            later ∧
        ∀ lookup ∈ plan.lookups, ∃ edge,
          lookup.Finds graph (source :: later) edge := by
  have count := wellFormed.stages
  have same := wellFormed.types
  rw [split, List.length_cons] at same
  have inside : Inside (plan.stages.zip types) [source].length := by
    refine inside_of_rules fun index stage found rule used => ?_
    obtain ⟨present, _⟩ := List.getElem?_zip_eq_some.mp found
    have bound := (wellFormed.rules present used).1
    simp only [List.length_singleton]
    omega
  have typed : List.Forall₂ (fun stage vertex =>
        vertex ∈ graph.vertices ∧ graph.hasType stage.2 vertex = true)
        (plan.stages.zip types) later ↔
      List.Forall₂ (fun type vertex =>
        vertex ∈ graph.vertices ∧ graph.hasType type vertex = true) types
          later := by
    have seconds : (plan.stages.zip types).map Prod.snd = types :=
      List.map_snd_zip (by omega)
    conv_rhs => rw [← seconds, List.forall₂_map_left_iff]
  rw [Plan.meets_iff inside, typed]
  refine and_congr_right fun others => ?_
  have length := others.length_eq
  constructor
  · intro rules lookup used
    obtain ⟨index, stage, rule, found, member, reads⟩ :=
      wellFormed.lookups lookup used
    obtain ⟨type, paired⟩ := wellFormed.stage_and_type split found
    have below : index < later.length := by
      have := (List.getElem?_eq_some_iff.mp found).1
      omega
    have bound : later[index]? = some later[index] :=
      List.getElem?_eq_getElem below
    exact (reads.admits_iff (by simp)).mp
      (rules index _ _ paired bound rule member)
  · intro finds index stage vertex found bound rule used
    obtain ⟨present, _⟩ := List.getElem?_zip_eq_some.mp found
    obtain ⟨_, lookup, member, reads⟩ := wellFormed.rules present used
    exact (reads.admits_iff (by simpa using bound)).mpr (finds lookup member)

/-- A well-formed plan binds at least the two ends of a relation. -/
theorem types_eq (wellFormed : plan.WellFormed) :
    ∃ sourceType targetType types,
      plan.types = sourceType :: targetType :: types := by
  obtain ⟨first, others, rest, stages⟩ := wellFormed.start
  have count := wellFormed.stages
  have same := wellFormed.types
  rw [stages, List.length_cons] at count
  match found : plan.types with
  | [] =>
      rw [found, List.length_nil] at same
      omega
  | [_] =>
      rw [found, List.length_singleton] at same
      omega
  | sourceType :: targetType :: types =>
      exact ⟨sourceType, targetType, types, rfl⟩

/-- The first rule starts at the first vertex, so a tuple that meets the stages
starts with one of the sources. -/
theorem mem_sources_of_meets
    (sound : graph.Sound)
    {first : Rule}
    {others : List Rule}
    {rest : List Stage}
    (stages : plan.stages = (first :: others) :: rest)
    {type : Option TypeId}
    {types : List (Option TypeId)}
    {source : VertexId}
    {later : List VertexId}
    (meets : Meets graph (plan.stages.zip (type :: types)) [source] later) :
    source ∈ graph.sources first.version first.direction := by
  rw [stages, List.zip_cons_cons] at meets
  cases later with
  | nil => cases meets
  | cons target later =>
      exact Rule.mem_sources_of_admits sound (meets.1.2 first (.head _))

/-- A well-formed plan enumerates the bindings that it admits, each once. -/
theorem lists_enumeration (wellFormed : plan.WellFormed) (sound : graph.Sound) :
    (plan.enumeration graph.walkable).Lists (plan.Admits graph) := by
  obtain ⟨first, others, rest, stages⟩ := wellFormed.start
  obtain ⟨sourceType, targetType, types, split⟩ := wellFormed.types_eq
  let sources :=
    (graph.sources first.version first.direction).filter
      (graph.hasType sourceType)
  have enumerated : plan.enumeration graph.walkable =
      .each sources fun source =>
        plan.extended graph.walkable (plan.stages.zip (targetType :: types))
          [source] := by
    rw [Plan.enumeration, wellFormed.shapeViolation?]
    simp only [stages, split, List.zip_cons_cons]
    rfl
  have each (source : VertexId) (_ : source ∈ sources) :=
    plan.lists_extended sound (plan.stages.zip (targetType :: types)) [source]
      (inside_of_rules fun index stage found rule used => by
        have bound :=
          (wellFormed.rules (List.getElem?_zip_eq_some.mp found).1 used).1
        simp only [List.length_singleton]
        omega)
      fun later meets => ((wellFormed.meets_iff split).mp meets).2
  have different : sources.Nodup :=
    nodup_of_ascending (graph.pairwise_sources _ _) |>.filter _
  rw [enumerated]
  refine (Enumeration.lists_each 0 different each ?_).congr fun binding => ?_
  · rintro source binding ⟨later, _, vertices, _⟩
    simp [vertices]
  · rw [Admits, split]
    constructor
    · rintro ⟨source, member, later, meets, vertices, resolves⟩
      have typed := (wellFormed.meets_iff split).mp meets
      obtain ⟨tried, sourceTyped⟩ := List.mem_filter.mp member
      obtain ⟨link, edge, found, _, near⟩ := sound.mem_sources.mp tried
      rw [vertices]
      exact ⟨.cons ⟨near ▸ sound.ends found _, sourceTyped⟩ typed.1, resolves⟩
    · rintro ⟨typed, resolves⟩
      obtain ⟨vertices, edges⟩ := binding
      cases typed with
      | cons sourceTyped typed =>
          rename_i source later
          have found : ∀ lookup ∈ plan.lookups,
              ∃ edge, lookup.Finds graph (source :: later) edge :=
                fun lookup member => by
            obtain ⟨edge, _, finds⟩ := exists_right_of_forall₂ resolves.1 member
            exact ⟨edge, finds⟩
          have meets := (wellFormed.meets_iff split).mpr ⟨typed, found⟩
          have tried := mem_sources_of_meets sound stages meets
          exact ⟨source, List.mem_filter.mpr ⟨tried, sourceTyped.2⟩, later,
            meets, rfl, resolves⟩

end WellFormed

end Plan

end DeltaGraph
