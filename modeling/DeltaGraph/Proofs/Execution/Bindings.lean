import DeltaGraph.Proofs.Execution.Enumeration
import DeltaGraph.Proofs.Graph.Walk
import DeltaGraph.Proofs.Lists

/-!
# The bindings of a well-formed plan

In a well-formed plan every rule reads a relation that is resolved later, and
every relation that is resolved is read by a rule.  On a sound graph such a plan
enumerates, without a failure and each once, the bindings that find an edge for
every relation, have the types asked for and pass the conditions.
-/

namespace DeltaGraph

namespace EdgeLookup

/-- The rule reads the relation at the stage that binds a slot. -/
inductive Reads (lookup : EdgeLookup) : Nat → Rule → Prop
  | forward :
      lookup.Reads lookup.target
        ⟨lookup.source, .forward, lookup.version, lookup.type⟩
  | backward :
      lookup.Reads lookup.source
        ⟨lookup.target, .backward, lookup.version, lookup.type⟩

theorem Reads.slot_eq
    {lookup : EdgeLookup}
    {slot : Nat}
    {rule : Rule}
    (reads : lookup.Reads slot rule) :
    slot = lookup.target ∨ slot = lookup.source := by
  cases reads with
  | forward => exact .inl rfl
  | backward => exact .inr rfl

theorem Reads.version_eq {lookup : EdgeLookup} {slot : Nat} {rule : Rule}
    (reads : lookup.Reads slot rule) : rule.version = lookup.version := by
  cases reads <;> rfl

/-- The edge is one that the relation can be resolved to. -/
def Finds
    (lookup : EdgeLookup)
    (graph : Graph)
    (vertices : List VertexId)
    (edge : EdgeId) :
    Prop :=
  ∃ source target, vertices[lookup.source]? = some source ∧
    vertices[lookup.target]? = some target ∧
    edge ∈ graph.walkable.edgesJoining source target lookup.type lookup.version

theorem Reads.admits_iff {lookup : EdgeLookup} {slot : Nat} {rule : Rule}
    (reads : lookup.Reads slot rule) {graph : Graph} {vertices : List VertexId}
    {vertex : VertexId} (bound : vertices[slot]? = some vertex) :
    rule.Admits graph vertices vertex ↔
      ∃ edge, lookup.Finds graph vertices edge := by
  cases reads with
  | forward =>
      simp only [Rule.Admits, Finds, bound, Graph.mem_neighbors,
        Graph.mem_edgesJoining]
      constructor
      · rintro ⟨start, found, link, edge, shown, near, far⟩
        exact ⟨edge.id, start, vertex, found, rfl, link, edge, shown, near, far,
          rfl⟩
      · rintro ⟨_, source, _, found, ⟨⟩, link, edge, shown, near, far, _⟩
        exact ⟨source, found, link, edge, shown, near, far⟩
  | backward =>
      simp only [Rule.Admits, Finds, bound, Graph.mem_neighbors,
        Graph.mem_edgesJoining]
      constructor
      · rintro ⟨start, found, link, edge, shown, near, far⟩
        exact ⟨edge.id, vertex, start, rfl, found, link, edge, shown, far, near,
          rfl⟩
      · rintro ⟨_, _, target, ⟨⟩, found, link, edge, shown, near, far, _⟩
        exact ⟨target, found, link, edge, shown, far, near⟩

/-- A relation that finds an edge can be resolved. -/
theorem resolve_eq
    {lookup : EdgeLookup}
    {graph : Graph}
    (sound : graph.Sound)
    {vertices : List VertexId}
    {edge : EdgeId}
    (finds : lookup.Finds graph vertices edge) :
    ∃ edges, lookup.resolve graph.walkable vertices = .ok edges ∧ edges.Nodup ∧
      ∀ other, other ∈ edges ↔ lookup.Finds graph vertices other := by
  obtain ⟨source, target, sourceBound, targetBound, member⟩ := finds
  have nodup :=
    sound.nodup_edgesJoining source target lookup.type lookup.version
  refine ⟨graph.walkable.edgesJoining source target lookup.type lookup.version,
    ?_, nodup, ?_⟩
  · simp only [resolve, endpoint, sourceBound, targetBound, bind, Except.bind]
    cases found :
      graph.walkable.edgesJoining source target lookup.type lookup.version with
    | nil => rw [found] at member; cases member
    | cons first rest => rfl
  · intro other
    simp [Finds, sourceBound, targetBound]

end EdgeLookup

namespace Plan

/-- The edges of a binding are found, and its conditions hold. -/
def Resolves (plan : Plan) (graph : Graph) (binding : Binding) : Prop :=
  List.Forall₂ (fun lookup edge => lookup.Finds graph binding.vertices edge)
      plan.lookups binding.edges ∧
    plan.conditions.all (·.holds graph binding.vertices binding.edges) = true

theorem mem_chosen {plan : Plan} {graph : Graph} {vertices : List VertexId}
    {choices : List (List EdgeId)} {edges : List EdgeId} {binding : Binding} :
    binding ∈ plan.chosen graph vertices choices edges ↔
      ∃ later, List.Forall₂ (fun edges edge => edge ∈ edges) choices later ∧
        binding = ⟨vertices, edges ++ later⟩ ∧
        plan.conditions.all (·.holds graph vertices (edges ++ later)) =
          true := by
  induction choices generalizing edges with
  | nil =>
      rw [chosen]
      split
      · rename_i passes
        simp only [List.mem_singleton, List.forall₂_nil_left_iff,
          exists_eq_left, List.append_nil]
        exact ⟨fun same => ⟨same, passes⟩, And.left⟩
      · rename_i fails
        simp only [List.not_mem_nil, List.forall₂_nil_left_iff, exists_eq_left,
          List.append_nil, false_iff, not_and]
        exact fun _ => fails
  | cons first rest inductionHypothesis =>
      simp only [chosen, List.mem_flatMap, inductionHypothesis]
      constructor
      · rintro ⟨edge, member, later, chosen, rfl, passes⟩
        exact ⟨edge :: later, .cons member chosen, by simp,
          by simpa using passes⟩
      · rintro ⟨_, chosen, rfl, passes⟩
        cases chosen with
        | cons member chosen =>
            exact ⟨_, member, _, chosen, by simp, by simpa using passes⟩

theorem nodup_chosen
    {plan : Plan}
    {graph : Graph}
    {vertices : List VertexId}
    {choices : List (List EdgeId)}
    (different : ∀ edges ∈ choices, edges.Nodup)
    (edges : List EdgeId) :
    (plan.chosen graph vertices choices edges).Nodup := by
  induction choices generalizing edges with
  | nil =>
      rw [chosen]
      split
      · exact List.nodup_singleton _
      · exact List.nodup_nil
  | cons first rest inductionHypothesis =>
      rw [chosen, List.nodup_flatMap]
      refine ⟨fun edge _ => inductionHypothesis (fun other later =>
        different other (.tail _ later)) _, ?_⟩
      refine (different first (.head _)).imp
        fun {left right} distinct binding chosenLeft
        chosenRight => ?_
      obtain ⟨later, _, rfl, _⟩ := mem_chosen.mp chosenLeft
      obtain ⟨others, _, same, _⟩ := mem_chosen.mp chosenRight
      simp only [Binding.mk.injEq, true_and, List.append_assoc,
        List.append_cancel_left_eq, List.cons_append, List.nil_append,
        List.cons.injEq] at same
      exact distinct same.1

/-- A tuple for which every relation finds an edge is resolved in all ways. -/
theorem lists_resolved
    (plan : Plan)
    {graph : Graph}
    (sound : graph.Sound)
    (vertices : List VertexId)
    (resolvable : ∀ lookup ∈ plan.lookups, ∃ edge,
      lookup.Finds graph vertices edge) :
    (plan.resolved graph.walkable vertices).Lists fun binding =>
      binding.vertices = vertices ∧ plan.Resolves graph binding := by
  obtain ⟨choices, resolved, each⟩ :=
    mapM_total plan.lookups
      (fun lookup => lookup.resolve graph.walkable vertices)
      (fun lookup edges => edges.Nodup ∧
        ∀ other, other ∈ edges ↔ lookup.Finds graph vertices other)
      fun lookup member => by
        obtain ⟨edge, finds⟩ := resolvable lookup member
        exact EdgeLookup.resolve_eq sound finds
  have enumerated : plan.resolved graph.walkable vertices =
      ⟨plan.chosen graph vertices choices [], none⟩ := by
    rw [Plan.resolved, resolved]
    rfl
  rw [enumerated]
  refine ⟨rfl, ?_, ?_⟩
  · refine nodup_chosen (fun edges member => ?_) []
    obtain ⟨lookup, _, different, _⟩ := exists_left_of_forall₂ each member
    exact different
  · -- Choosing a member of each list is finding an edge for each relation.
    have same (edges : List EdgeId) :
        List.Forall₂ (fun edges edge => edge ∈ edges) choices edges ↔
          List.Forall₂ (fun lookup edge => lookup.Finds graph vertices edge)
            plan.lookups edges := by
      clear resolved resolvable enumerated
      generalize plan.lookups = lookups at each ⊢
      induction each generalizing edges with
      | nil => simp
      | cons first _ inductionHypothesis =>
          cases edges with
          | nil => simp
          | cons edge rest =>
              rw [List.forall₂_cons, List.forall₂_cons, first.2,
                inductionHypothesis]
    rintro ⟨tuple, edges⟩
    simp only [mem_chosen, same, List.nil_append, Binding.mk.injEq, Resolves]
    constructor
    · rintro ⟨_, found, ⟨rfl, rfl⟩, passes⟩
      exact ⟨rfl, found, passes⟩
    · rintro ⟨rfl, found, passes⟩
      exact ⟨edges, found, ⟨rfl, rfl⟩, passes⟩

/-! ## Stages -/

/-- The later vertices meet the remaining stages, one after another. -/
def Meets (graph : Graph) :
    List (Stage × Option TypeId) → List VertexId → List VertexId → Prop
  | [], _, later => later = []
  | _ :: _, _, [] => False
  | (stage, type) :: rest, bound, vertex :: later =>
      (vertex ∈ graph.vertices ∧
        ∀ rule ∈ stage, rule.Admits graph bound vertex) ∧
        graph.hasType type vertex = true ∧
        Meets graph rest (bound ++ [vertex]) later

/-- The rules of the remaining stages start at slots that are bound by then. -/
def Inside : List (Stage × Option TypeId) → Nat → Prop
  | [], _ => True
  | (stage, _) :: rest, count =>
      (∀ rule ∈ stage, rule.slot < count) ∧ Inside rest (count + 1)

/-- The vertices bound so far are extended in all ways that meet the remaining
stages. -/
theorem lists_extended
    (plan : Plan)
    {graph : Graph}
    (sound : graph.Sound)
    (stages : List (Stage × Option TypeId))
    (bound : List VertexId)
    (inside : Inside stages bound.length)
    (resolvable : ∀ later, Meets graph stages bound later →
      ∀ lookup ∈ plan.lookups, ∃ edge,
        lookup.Finds graph (bound ++ later) edge) :
    (plan.extended graph.walkable stages bound).Lists fun binding =>
      ∃ later, Meets graph stages bound later ∧
        binding.vertices = bound ++ later ∧
        plan.Resolves graph binding := by
  induction stages generalizing bound with
  | nil =>
      have listed := plan.lists_resolved sound bound fun lookup found => by
        simpa using resolvable [] rfl lookup found
      exact listed.congr fun binding => by simp [Meets]
  | cons first rest inductionHypothesis =>
      obtain ⟨stage, type⟩ := first
      obtain ⟨candidates, found, ascending, candidate⟩ :=
        stage.admissible_eq sound bound inside.1
      have tried (vertex : VertexId) :
          vertex ∈ candidates.filter (graph.hasType type) ↔
            (vertex ∈ graph.vertices ∧
              ∀ rule ∈ stage, rule.Admits graph bound vertex) ∧
              graph.hasType type vertex = true := by
        rw [List.mem_filter, candidate]
      have different : (candidates.filter (graph.hasType type)).Nodup :=
        nodup_of_ascending ascending |>.filter _
      have each (vertex : VertexId)
          (member : vertex ∈ candidates.filter (graph.hasType type)) :=
        inductionHypothesis (bound ++ [vertex]) (by simpa using inside.2)
          fun later meets lookup used => by
            have whole := resolvable (vertex :: later)
              ⟨((tried vertex).mp member).1, ((tried vertex).mp member).2,
                meets⟩ lookup used
            simpa using whole
      rw [extended, found]
      refine (Enumeration.lists_each bound.length different each ?_).congr
        fun binding => ?_
      · rintro vertex binding ⟨later, _, vertices, _⟩
        simp [vertices]
      · constructor
        · rintro ⟨vertex, member, later, meets, vertices, resolves⟩
          have admitted := (tried vertex).mp member
          exact ⟨vertex :: later, ⟨admitted.1, admitted.2, meets⟩,
            by simp [vertices], resolves⟩
        · rintro ⟨later, meets, vertices, resolves⟩
          cases later with
          | nil => cases meets
          | cons vertex later =>
              obtain ⟨admitted, typed, meets⟩ := meets
              exact ⟨vertex, (tried vertex).mpr ⟨admitted, typed⟩, later, meets,
                by simp [vertices], resolves⟩

end Plan

end DeltaGraph
