import DeltaGraph.Proofs.Execution.NestedLoops
import DeltaGraph.Proofs.Execution.Safety
import Mathlib.Data.Set.Card

/-!
# Partial tuples

On its way to complete tuples a plan binds the first vertices in all ways that
meet the types and the stages of their slots.  Nothing more is asked of the plan
than that it does not fail on the way.
-/

namespace DeltaGraph

namespace Plan

/-- The vertices meet the types and the stages of the slots that they are bound
to. -/
structure Binds
    (plan : Plan)
    (graph : Graph)
    (vertices : List VertexId) : Prop where
  typed {slot : Nat} {type : Option TypeId} {vertex : VertexId}
    (asked : plan.types[slot]? = some type)
    (bound : vertices[slot]? = some vertex) :
    graph.hasType type vertex
  met {index : Nat} {stage : Stage} {vertex : VertexId}
    (found : plan.stages[index]? = some stage)
    (bound : vertices[index + 1]? = some vertex) :
    vertex ∈ graph.vertices ∧
      ∀ rule ∈ stage, rule.Admits graph (vertices.take (index + 1)) vertex

/-- The vertices meet the plan, and each relation is resolved to one of its
edges. -/
structure Combines
    (plan : Plan)
    (graph : Graph)
    (binding : Binding) : Prop where
  complete : binding.vertices.length = plan.order.length
  binds : plan.Binds graph binding.vertices
  edges :
    List.Forall₂ (fun lookup edge => lookup.Finds graph binding.vertices edge)
    plan.lookups binding.edges

/-- In how many ways the plan binds the first slots. -/
noncomputable def tupleCount
    (plan : Plan)
    (graph : Graph)
    (slots : Nat) : Nat :=
  {vertices : List VertexId | vertices.length = slots ∧
    plan.Binds graph vertices}.ncard

/-- In how many ways the plan binds all slots and resolves all relations. -/
noncomputable def rowCount (plan : Plan) (graph : Graph) : Nat :=
  {binding : Binding | plan.Combines graph binding}.ncard

variable {plan : Plan} {graph : Graph}

/-- A tuple that binds its slots does so up to any shorter length. -/
theorem Binds.of_append
    {vertices more : List VertexId}
    (binds : plan.Binds graph (vertices ++ more)) :
    plan.Binds graph vertices := by
  have kept {slot : Nat} {vertex : VertexId}
      (bound : vertices[slot]? = some vertex) :
      slot < vertices.length ∧ (vertices ++ more)[slot]? = some vertex := by
    have inside := (List.getElem?_eq_some_iff.mp bound).1
    exact ⟨inside, by rwa [List.getElem?_append_left inside]⟩
  constructor
  · exact fun asked bound => binds.typed asked (kept bound).2
  · intro index stage vertex found bound
    obtain ⟨inside, still⟩ := kept bound
    have met := binds.met found still
    rwa [List.take_append_of_le_length (Nat.le_of_lt inside)] at met

/-- One more vertex has to meet the type and the stage of its slot. -/
theorem binds_concat_iff
    {vertices : List VertexId}
    {index : Nat}
    {stage : Stage}
    {type : Option TypeId}
    {vertex : VertexId}
    (binds : plan.Binds graph vertices)
    (next : vertices.length = index + 1)
    (staged : plan.stages[index]? = some stage)
    (asked : plan.types[index + 1]? = some type) :
    plan.Binds graph (vertices ++ [vertex]) ↔
      (vertex ∈ graph.vertices ∧
        ∀ rule ∈ stage, rule.Admits graph vertices vertex) ∧
        graph.hasType type vertex := by
  have last : (vertices ++ [vertex])[index + 1]? = some vertex := by
    rw [← next, List.getElem?_concat_length]
  have before : (vertices ++ [vertex]).take (index + 1) = vertices := by
    rw [← next, List.take_left]
  constructor
  · intro more
    have met := more.met staged last
    rw [before] at met
    exact ⟨met, more.typed asked last⟩
  · rintro ⟨met, typed⟩
    constructor
    · intro slot other wanted wantedAt bound
      rcases getElem?_concat_eq_some bound with ⟨_, earlier⟩ | ⟨rfl, rfl⟩
      · exact binds.typed wantedAt earlier
      · rw [next, asked] at wantedAt
        cases wantedAt
        exact typed
    · intro slot other found foundAt bound
      rcases getElem?_concat_eq_some bound with ⟨inside, earlier⟩ | ⟨same, rfl⟩
      · rw [List.take_append_of_le_length (Nat.le_of_lt inside)]
        exact binds.met foundAt earlier
      · cases Nat.succ.inj (same.trans next)
        rw [staged] at foundAt
        cases foundAt
        rwa [before]

theorem binds_singleton_iff
    {type : Option TypeId}
    {types : List (Option TypeId)}
    {source : VertexId}
    (typed : plan.types = type :: types) :
    plan.Binds graph [source] ↔ graph.hasType type source := by
  constructor
  · have asked : plan.types[0]? = some type := by rw [typed]; rfl
    exact fun binds => binds.typed asked rfl
  · intro holds
    constructor
    · intro slot other vertex asked bound
      cases slot with
      | zero =>
          rw [typed] at asked
          cases asked
          cases bound
          exact holds
      | succ slot => cases bound
    · intro index stage vertex _ bound
      cases bound

end Plan

/-! ## What is admitted if nothing fails -/

namespace Enumeration

variable {α : Type}

theorem complete_of_append {first next : Enumeration}
    (complete : (first.append next).failure = none) :
    first.failure = none ∧ next.failure = none := by
  unfold append at complete
  split at complete
  · rename_i ended
    exact ⟨ended, complete⟩
  · rename_i error failed
    rw [failed] at complete
    cases complete

/-- A loop without failure has no failure at any of its items. -/
theorem complete_of_each
    {items : List α}
    {body : α → Enumeration}
    (complete : (each items body).failure = none) :
    ∀ item ∈ items, (body item).failure = none := by
  induction items with
  | nil => exact fun _ member => absurd member List.not_mem_nil
  | cons first rest inductionHypothesis =>
      obtain ⟨here, later⟩ := complete_of_append complete
      exact List.forall_mem_cons.mpr ⟨here, inductionHypothesis later⟩

theorem exists_of_given
    {value : Except Error α}
    {body : α → Enumeration}
    (complete : (given value body).failure = none) :
    ∃ item, value = .ok item := by
  cases value with
  | ok item => exact ⟨item, rfl⟩
  | error error => cases complete

end Enumeration

/-- The neighbors a rule reads are the vertices it admits. -/
theorem Rule.mem_neighbors_iff
    {rule : Rule}
    {graph : Graph}
    {bound neighbors : List VertexId}
    (found : rule.neighbors graph.walkable bound = .ok neighbors)
    {vertex : VertexId} :
    vertex ∈ neighbors ↔ rule.Admits graph bound vertex := by
  unfold Rule.neighbors at found
  split at found
  · rename_i start present
    cases found
    simp [Rule.Admits, present]
  · cases found

/-- A vertex stands in every list a stage reads exactly when each of its rules
admits it. -/
theorem Stage.forall_mem_readLists_iff
    {stage : Stage}
    {graph : Graph}
    {bound : List VertexId}
    {lists : List (List VertexId)}
    (read : stage.readLists graph.walkable bound = .ok lists)
    {vertex : VertexId} :
    (∀ list ∈ lists, vertex ∈ list) ↔
      ∀ rule ∈ stage, rule.Admits graph bound vertex := by
  induction stage generalizing lists with
  | nil =>
      cases read
      simp
  | cons rule rest inductionHypothesis =>
      obtain ⟨neighbors, others, found, rfl, later⟩ :=
        exists_of_readLists_cons read
      rw [List.forall_mem_cons, List.forall_mem_cons,
        rule.mem_neighbors_iff found]
      obtain ⟨rfl, rfl⟩ | later := later
      · have notAdmitted : ¬ rule.Admits graph bound vertex := by
          rw [← rule.mem_neighbors_iff found]
          exact List.not_mem_nil
        simp [notAdmitted]
      · rw [inductionHypothesis later]

/-- The vertices of the type that a stage admits, if it can be read. -/
theorem Stage.mem_common_iff
    {stage : Stage}
    {graph : Graph}
    {type : Option TypeId}
    {bound candidates : List VertexId}
    (had : stage.common graph type bound = .ok candidates)
    {vertex : VertexId} :
    vertex ∈ candidates ↔
      (vertex ∈ graph.vertices ∧
        ∀ rule ∈ stage, rule.Admits graph bound vertex) ∧
        graph.hasType type vertex := by
  obtain ⟨lists, read, made⟩ := exists_of_bind_eq_ok had
  cases made
  rw [← forall_mem_readLists_iff read]
  simp [Graph.mem_vertexIds, and_assoc]

/-- A lookup resolves to the edges it finds. -/
theorem EdgeLookup.mem_resolve_iff
    {lookup : EdgeLookup}
    {graph : Graph}
    {vertices : List VertexId}
    {edges : List EdgeId}
    (resolved : lookup.resolve graph.walkable vertices = .ok edges)
    {edge : EdgeId} :
    edge ∈ edges ↔ lookup.Finds graph vertices edge := by
  obtain ⟨source, starts, rest⟩ := exists_of_bind_eq_ok resolved
  obtain ⟨target, stops, read⟩ := exists_of_bind_eq_ok rest
  have bound {slot : Nat} {vertex : VertexId}
      (had : lookup.endpoint vertices slot = .ok vertex) :
      vertices[slot]? = some vertex := by
    unfold endpoint at had
    split at had
    · cases had
      assumption
    · cases had
  have joined :
      graph.walkable.edgesJoining source target lookup.type lookup.version =
        edges := by
    split at read
    · cases read
    · cases read
      rfl
  rw [← joined]
  simp [Finds, bound starts, bound stops]

/-- The product of choices holds the lists with one item of each choice. -/
theorem mem_products {α : Type} {choices : List (List α)} {items : List α} :
    items ∈ products choices ↔
      List.Forall₂ (fun choice item => item ∈ choice) choices items := by
  induction choices generalizing items with
  | nil => simp [products]
  | cons first rest inductionHypothesis =>
      simp only [products, List.mem_flatMap, List.mem_map, inductionHypothesis,
        List.forall₂_cons_left_iff]
      constructor
      · rintro ⟨item, member, later, chosen, rfl⟩
        exact ⟨item, later, member, chosen, rfl⟩
      · rintro ⟨item, later, member, chosen, rfl⟩
        exact ⟨item, member, later, chosen, rfl⟩

namespace Plan

/-! ## Listing partial tuples -/

/-- The vertices, and what is made of them by binding one more vertex for each
of the stages up to some stage. -/
def partials (graph : Graph) :
    List (Stage × Option TypeId) → List VertexId → List (List VertexId)
  | [], vertices => [vertices]
  | (stage, type) :: rest, vertices =>
      vertices ::
        match stage.common graph type vertices with
        | .ok candidates =>
            candidates.flatMap fun vertex =>
              partials graph rest (vertices ++ [vertex])
        | .error _ => []

/-- All partial tuples of a plan, those with one vertex included. -/
def partialTuples (plan : Plan) (graph : Graph) : List (List VertexId) :=
  match plan.stages, plan.types with
  | (first :: _) :: _, sourceType :: types =>
      ((graph.sources first.version first.direction).filter
        (graph.hasType sourceType)).flatMap
        fun source => partials graph (plan.stages.zip types) [source]
  | _, _ => []

variable {plan : Plan} {graph : Graph}

theorem prefix_of_mem_partials
    {stages : List (Stage × Option TypeId)}
    {vertices tuple : List VertexId}
    (member : tuple ∈ partials graph stages vertices) :
    vertices <+: tuple := by
  induction stages generalizing vertices with
  | nil => rw [List.mem_singleton.mp member]
  | cons first rest inductionHypothesis =>
      rcases List.mem_cons.mp member with rfl | later
      · exact List.prefix_refl _
      · split at later
        · obtain ⟨vertex, _, longer⟩ := List.mem_flatMap.mp later
          exact (List.prefix_append _ _).trans (inductionHypothesis longer)
        · cases later

theorem nodup_of_common
    {stage : Stage}
    {type : Option TypeId}
    {bound candidates : List VertexId}
    (had : stage.common graph type bound = .ok candidates) :
    candidates.Nodup := by
  obtain ⟨lists, _, made⟩ := exists_of_bind_eq_ok had
  cases made
  exact (nodup_of_ascending graph.pairwise_vertexIds).filter _

/-- Tuples that go on with different vertices are different. -/
theorem nodup_flatMap_partials
    {stages : List (Stage × Option TypeId)}
    (vertices : List VertexId)
    {candidates : List VertexId}
    (different : candidates.Nodup)
    (each : ∀ vertex, (partials graph stages (vertices ++ [vertex])).Nodup) :
    (candidates.flatMap fun vertex =>
      partials graph stages (vertices ++ [vertex])).Nodup := by
  rw [List.nodup_flatMap]
  refine ⟨fun vertex _ => each vertex,
    different.imp fun {vertex other} apart tuple here there => ?_⟩
  have one := prefix_of_mem_partials here
  have another := prefix_of_mem_partials there
  have same :=
    (List.prefix_of_prefix_length_le one another (by simp)).eq_of_length
      (by simp)
  simp at same
  exact apart same

/-- No partial tuple is met twice below a tuple. -/
theorem nodup_partials
    (stages : List (Stage × Option TypeId))
    (vertices : List VertexId) :
    (partials graph stages vertices).Nodup := by
  induction stages generalizing vertices with
  | nil => exact List.nodup_singleton vertices
  | cons first rest inductionHypothesis =>
      rw [partials]
      split
      · rename_i candidates had
        refine List.nodup_cons.mpr ⟨fun member => ?_, ?_⟩
        · obtain ⟨vertex, _, longer⟩ := List.mem_flatMap.mp member
          have long := (prefix_of_mem_partials longer).length_le
          simp at long
        · exact nodup_flatMap_partials vertices (nodup_of_common had)
            fun vertex =>
              inductionHypothesis (vertices ++ [vertex])
      · exact List.nodup_singleton vertices

/-- If the loops come to their end, they come to every tuple that goes on with
the vertices and meets the plan. -/
theorem mem_partials_iff
    {before stages : List (Stage × Option TypeId)}
    {vertices : List VertexId}
    (split : plan.steps = before ++ stages)
    (next : vertices.length = before.length + 1)
    (complete : (plan.tuplesFrom graph stages vertices).failure = none)
    (binds : plan.Binds graph vertices)
    {tuple : List VertexId} :
    tuple ∈ partials graph stages vertices ↔
      vertices <+: tuple ∧ tuple.length ≤ vertices.length + stages.length ∧
        plan.Binds graph tuple := by
  induction stages generalizing before vertices with
  | nil =>
      simp only [partials, List.mem_singleton, List.length_nil, Nat.add_zero]
      constructor
      · rintro rfl
        exact ⟨List.prefix_refl _, Nat.le_refl _, binds⟩
      · rintro ⟨whole, short, _⟩
        exact (whole.eq_of_length_le short).symm
  | cons first rest inductionHypothesis =>
      obtain ⟨stage, type⟩ := first
      obtain ⟨candidates, had⟩ := Enumeration.exists_of_given complete
      rw [tuplesFrom, had] at complete
      have found : plan.steps[before.length]? = some (stage, type) := by
        simp [split]
      obtain ⟨staged, asked⟩ := List.getElem?_zip_eq_some.mp found
      rw [List.getElem?_tail] at asked
      have splitMore : plan.steps = (before ++ [(stage, type)]) ++ rest := by
        simp [split]
      have nextMore (vertex : VertexId) :
          (vertices ++ [vertex]).length =
            (before ++ [(stage, type)]).length + 1 := by simp [next]
      have each {vertex : VertexId} (candidate : vertex ∈ candidates) :=
        inductionHypothesis splitMore (nextMore vertex)
          (Enumeration.complete_of_each complete vertex candidate)
          ((binds_concat_iff binds next staged asked).mpr
            ((Stage.mem_common_iff had).mp candidate))
      simp only [partials, had, List.mem_cons, List.mem_flatMap]
      constructor
      · rintro (rfl | ⟨vertex, candidate, member⟩)
        · exact ⟨List.prefix_refl _, by omega, binds⟩
        · obtain ⟨longer, short, bindsMore⟩ := (each candidate).mp member
          refine ⟨(List.prefix_append _ _).trans longer, ?_, bindsMore⟩
          simp only [List.length_append, List.length_cons, List.length_nil]
            at short ⊢
          omega
      · rintro ⟨⟨more, rfl⟩, short, bindsMore⟩
        cases more with
        | nil => exact .inl (List.append_nil _)
        | cons vertex more =>
            have whole :
                vertices ++ vertex :: more = vertices ++ [vertex] ++ more :=
              List.append_cons vertices vertex more
            have candidate := (Stage.mem_common_iff had).mpr
              ((binds_concat_iff binds next staged asked).mp
                (whole ▸ bindsMore).of_append)
            refine .inr ⟨vertex, candidate,
              (each candidate).mpr ⟨⟨more, whole.symm⟩, ?_, bindsMore⟩⟩
            simp only [List.length_append, List.length_cons, List.length_nil]
              at short ⊢
            omega

/-- Bound vertices are completed by an edge for each lookup. -/
theorem mem_tuplesAt_iff
    {vertices : List VertexId}
    (complete : (plan.tuplesAt graph vertices).failure = none)
    {binding : Binding} :
    binding ∈ (plan.tuplesAt graph vertices).bindings ↔
      binding.vertices = vertices ∧
        List.Forall₂ (fun lookup edge => lookup.Finds graph vertices edge)
          plan.lookups binding.edges := by
  obtain ⟨choices, resolved⟩ := Enumeration.exists_of_given complete
  have found := forall₂_of_mapM_ok resolved
  have listed : plan.tuplesAt graph vertices =
      ⟨(products choices).map fun edges => ⟨vertices, edges⟩, none⟩ := by
    rw [tuplesAt, resolved]
    rfl
  have finds (edges : List EdgeId) :
      List.Forall₂ (fun lookup edge => lookup.Finds graph vertices edge)
        plan.lookups edges ↔
        List.Forall₂ (fun choice edge => edge ∈ choice) choices edges := by
    refine forall₂_congr_of_related found
      (fun lookup choice resolved edge => ?_) edges
    exact (lookup.mem_resolve_iff resolved).symm
  obtain ⟨tuple, edges⟩ := binding
  simp only [listed, List.mem_map, mem_products, ← finds, Binding.mk.injEq]
  constructor
  · rintro ⟨_, chosen, rfl, rfl⟩
    exact ⟨rfl, chosen⟩
  · rintro ⟨rfl, chosen⟩
    exact ⟨edges, chosen, rfl, rfl⟩

/-- The complete tuples are had from those that bind all slots. -/
theorem mem_tuplesFrom_iff
    {stages : List (Stage × Option TypeId)}
    {vertices : List VertexId}
    (complete : (plan.tuplesFrom graph stages vertices).failure = none)
    {binding : Binding} :
    binding ∈ (plan.tuplesFrom graph stages vertices).bindings ↔
      binding.vertices ∈ partials graph stages vertices ∧
        binding.vertices.length = vertices.length + stages.length ∧
        List.Forall₂
          (fun lookup edge => lookup.Finds graph binding.vertices edge)
          plan.lookups binding.edges := by
  induction stages generalizing vertices with
  | nil =>
      rw [tuplesFrom] at complete ⊢
      rw [mem_tuplesAt_iff complete, partials, List.mem_singleton,
        List.length_nil, Nat.add_zero]
      constructor
      · rintro ⟨rfl, edges⟩
        exact ⟨rfl, rfl, edges⟩
      · rintro ⟨rfl, _, edges⟩
        exact ⟨rfl, edges⟩
  | cons first rest inductionHypothesis =>
      obtain ⟨stage, type⟩ := first
      obtain ⟨candidates, had⟩ := Enumeration.exists_of_given complete
      rw [tuplesFrom, had] at complete
      have each := Enumeration.complete_of_each complete
      have listed :
          (plan.tuplesFrom graph ((stage, type) :: rest) vertices).bindings =
            candidates.flatMap fun vertex =>
              (plan.tuplesFrom graph rest (vertices ++ [vertex])).bindings := by
        rw [tuplesFrom, had]
        exact congrArg Enumeration.bindings (Enumeration.each_of_complete each)
      rw [listed]
      simp only [partials, had, List.mem_cons, List.mem_flatMap]
      constructor
      · rintro ⟨vertex, candidate, member⟩
        obtain ⟨grown, length, edges⟩ :=
          (inductionHypothesis (each vertex candidate)).mp member
        refine ⟨.inr ⟨vertex, candidate, grown⟩, ?_, edges⟩
        simp only [List.length_append, List.length_cons, List.length_nil]
          at length ⊢
        omega
      · rintro ⟨same | ⟨vertex, candidate, grown⟩, length, edges⟩
        · rw [same, List.length_cons] at length
          omega
        · refine ⟨vertex, candidate,
            (inductionHypothesis (each vertex candidate)).mpr
            ⟨grown, ?_, edges⟩⟩
          simp only [List.length_append, List.length_cons, List.length_nil]
            at length ⊢
          omega

/-! ## Counting -/

theorem length_steps (shaped : plan.shapeViolation? = none) :
    plan.steps.length + 1 = plan.order.length := by
  obtain ⟨several, stages, types, _⟩ := shape_of_none shaped
  rw [steps, List.length_zip, List.length_tail]
  omega

/-- The loops over the tuples start from sources of the first rule. -/
theorem exists_sources (shaped : plan.shapeViolation? = none) (graph : Graph) :
    ∃ first others rest sourceType types,
      plan.stages = (first :: others) :: rest ∧
      plan.types = sourceType :: types ∧
      plan.tuples graph = .each
        ((graph.sources first.version first.direction).filter
          (graph.hasType sourceType))
        (fun source => plan.tuplesFrom graph plan.steps [source]) ∧
      plan.partialTuples graph =
        ((graph.sources first.version first.direction).filter
          (graph.hasType sourceType)).flatMap
          fun source => partials graph plan.steps [source] := by
  obtain ⟨first, others, rest, sourceType, targetType, types, stages, typed⟩ :=
    exists_start shaped
  refine ⟨first, others, rest, sourceType, targetType :: types, stages, typed,
    ?_, ?_⟩
  · simp only [tuples, steps, stages, typed, List.tail_cons]
  · simp only [partialTuples, steps, stages, typed, List.tail_cons]

/-- No partial tuple of a plan is met twice. -/
theorem nodup_partialTuples (shaped : plan.shapeViolation? = none) :
    (plan.partialTuples graph).Nodup := by
  obtain ⟨first, others, rest, sourceType, types, _, _, _, listed⟩ :=
    exists_sources shaped graph
  rw [listed]
  exact nodup_flatMap_partials []
    ((nodup_of_ascending (graph.pairwise_sources _ _)).filter _)
    fun source => nodup_partials plan.steps [source]

section

variable (sound : graph.Sound) (shaped : plan.shapeViolation? = none)
  (complete : (plan.tuples graph).failure = none)

include sound shaped complete

/-- The loops come to the tuples of two vertices or more that meet the plan. -/
theorem mem_partialTuples_iff
    {tuple : List VertexId}
    (pair : 2 ≤ tuple.length) :
    tuple ∈ plan.partialTuples graph ↔
      tuple.length ≤ plan.order.length ∧ plan.Binds graph tuple := by
  obtain ⟨first, others, rest, sourceType, types, stages, typed, loops,
      listed⟩ :=
    exists_sources shaped graph
  have size := length_steps shaped
  rw [loops] at complete
  have starts {source : VertexId} (tried : source ∈
      (graph.sources first.version first.direction).filter
        (graph.hasType sourceType)) :
      tuple ∈ partials graph plan.steps [source] ↔ [source] <+: tuple ∧
        tuple.length ≤ plan.order.length ∧ plan.Binds graph tuple := by
    have binds := (binds_singleton_iff typed).mpr (List.mem_filter.mp tried).2
    have each := Enumeration.complete_of_each complete source tried
    have split : plan.steps = [] ++ plan.steps := rfl
    rw [mem_partials_iff split rfl each binds, ←
      size, List.length_singleton, Nat.add_comm 1]
  rw [listed, List.mem_flatMap]
  constructor
  · rintro ⟨source, tried, member⟩
    exact ((starts tried).mp member).2
  · rintro ⟨short, binds⟩
    match tuple, pair with
    | source :: target :: more, _ =>
        have staged : plan.stages[0]? = some (first :: others) := by
          rw [stages]; rfl
        have known : source ∈ graph.sources first.version first.direction :=
          Rule.mem_sources_of_admits sound
            ((binds.met staged rfl).2 first (.head _))
        have extended : plan.Binds graph ([source] ++ target :: more) := binds
        have alone := (binds_singleton_iff typed).mp extended.of_append
        have tried := List.mem_filter.mpr ⟨known, alone⟩
        exact ⟨source, tried,
          (starts tried).mpr ⟨⟨target :: more, rfl⟩, short, binds⟩⟩

/-- The tuples a plan reaches at a width are its partial tuples of that
length. -/
theorem tupleCount_eq_countP
    {slots : Nat}
    (pair : 2 ≤ slots)
    (inside : slots ≤ plan.order.length) :
    plan.tupleCount graph slots =
      (plan.partialTuples graph).countP (·.length = slots) := by
  have listed :
      {vertices : List VertexId | vertices.length = slots ∧
        plan.Binds graph vertices} =
        ((plan.partialTuples graph).filter (·.length = slots)).toFinset := by
    ext tuple
    simp only [Set.mem_ofPred_eq, List.coe_toFinset, List.mem_filter,
      decide_eq_true_eq]
    constructor
    · rintro ⟨rfl, binds⟩
      exact ⟨(mem_partialTuples_iff sound shaped complete pair).mpr
        ⟨inside, binds⟩, rfl⟩
    · rintro ⟨member, rfl⟩
      exact ⟨rfl,
        ((mem_partialTuples_iff sound shaped complete pair).mp member).2⟩
  have different :
      ((plan.partialTuples graph).filter (·.length = slots)).Nodup :=
    (nodup_partialTuples shaped).filter _
  rw [tupleCount, listed, Set.ncard_coe_finset,
    List.toFinset_card_of_nodup different, List.countP_eq_length_filter]

/-- The complete tuples are the bindings that combine vertices and edges. -/
theorem mem_tuples_iff {binding : Binding} :
    binding ∈ (plan.tuples graph).bindings ↔ plan.Combines graph binding := by
  obtain ⟨several, _⟩ := shape_of_none shaped
  obtain ⟨first, others, rest, sourceType, types, stages, typed, loops,
      listed⟩ :=
    exists_sources shaped graph
  have size := length_steps shaped
  have ends := complete
  rw [loops] at ends
  have each := Enumeration.complete_of_each ends
  have joined : (plan.tuples graph).bindings =
      ((graph.sources first.version first.direction).filter
        (graph.hasType sourceType)).flatMap
        fun source => (plan.tuplesFrom graph plan.steps [source]).bindings := by
    rw [loops]
    exact congrArg Enumeration.bindings (Enumeration.each_of_complete each)
  rw [joined, List.mem_flatMap]
  constructor
  · rintro ⟨source, tried, member⟩
    obtain ⟨grown, length, edges⟩ :=
      (mem_tuplesFrom_iff (each source tried)).mp member
    rw [List.length_singleton, Nat.add_comm, size] at length
    have all : binding.vertices ∈ plan.partialTuples graph := by
      rw [listed]
      exact List.mem_flatMap.mpr ⟨source, tried, grown⟩
    have binds :=
      ((mem_partialTuples_iff sound shaped complete (length ▸ several)).mp
        all).2
    exact ⟨length, binds, edges⟩
  · rintro ⟨length, binds, edges⟩
    have all :=
      (mem_partialTuples_iff sound shaped complete (length ▸ several)).mpr
      ⟨length.le, binds⟩
    rw [listed] at all
    obtain ⟨source, tried, grown⟩ := List.mem_flatMap.mp all
    refine ⟨source, tried,
      (mem_tuplesFrom_iff (each source tried)).mpr ⟨grown, ?_, edges⟩⟩
    rw [length, List.length_singleton, Nat.add_comm, size]

/-- The rows a plan forms are counted as the bindings of its enumeration. -/
theorem rowCount_eq_length :
    plan.rowCount graph = (plan.tuples graph).bindings.length := by
  have different : (plan.tuples graph).bindings.Nodup := by
    rw [← unconditional_enumeration_eq sound shaped]
    exact (pairwise_enumeration plan.unconditional sound).imp
      fun {left right} before same => by
        subst same
        exact absurd before (Std.Irrefl.irrefl left)
  have listed : {binding : Binding | plan.Combines graph binding} =
      ((plan.tuples graph).bindings.toFinset : Set Binding) := by
    ext binding
    simp [mem_tuples_iff sound shaped complete]
  rw [rowCount, listed, Set.ncard_coe_finset,
    List.toFinset_card_of_nodup different]

end

end Plan

end DeltaGraph
