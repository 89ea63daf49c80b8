import DeltaGraph.Proofs.Execution.WellFormed
import DeltaGraph.Proofs.Graph.Table

/-!
# The order of the bindings

A plan enumerates its bindings in ascending order: of the vertices in the order
in which they are bound, and for the same vertices of the types of the edges in
the order of the relations.  Enumerations with the same members are therefore
the same, however the members were found.
-/

namespace DeltaGraph

namespace Graph

/-- The number of the type of an edge. -/
def typeNumber (graph : Graph) (id : EdgeId) : Nat :=
  ((graph.links[id]?).map fun link => link.type.number).getD 0

/-- The type number looked up for the edge of a link is the one of the link. -/
theorem Sound.typeNumber_eq
    {graph : Graph}
    (sound : graph.Sound)
    {link : Link}
    {edge : Edge}
    (found : graph.edges[link]? = some edge) :
    graph.typeNumber edge.id = link.type.number := by
  have linked := (sound.links_iff edge.id link).mpr ⟨edge, found, rfl⟩
  rw [typeNumber, linked]
  rfl

/-- The edges that join two vertices are in ascending order of their types. -/
theorem Sound.pairwise_edgesJoining {graph : Graph} (sound : graph.Sound)
    (source target : VertexId) (type : Option TypeId) (version : Version) :
    (graph.walkable.edgesJoining source target type version).Pairwise
      fun edge later =>
        graph.typeNumber edge < graph.typeNumber later := by
  rw [edgesJoining_eq_map, List.pairwise_map]
  refine (graph.pairwise_entriesJoining source target type
    version).imp_of_mem ?_
  rintro ⟨link, edge⟩ ⟨other, another⟩ member later less
  rw [sound.typeNumber_eq (mem_entriesJoining.mp member).1.1,
    sound.typeNumber_eq (mem_entriesJoining.mp later).1.1]
  exact less

end Graph

namespace Binding

/-- The numbers of the vertices, and then those of the types of the edges. -/
def key (graph : Graph) (binding : Binding) : List Nat :=
  binding.vertices.map Id.number ++ binding.edges.map graph.typeNumber

/-- The first difference is in a vertex with a smaller number, or else in an
edge whose type has a smaller number. -/
def Precedes (graph : Graph) (left right : Binding) : Prop :=
  left.key graph < right.key graph

instance {graph : Graph} : Std.Irrefl (Precedes graph) :=
  ⟨fun binding => List.lt_irrefl (binding.key graph)⟩

instance {graph : Graph} : Std.Antisymm (Precedes graph) :=
  ⟨fun _ _ before after => absurd before (List.lt_asymm after)⟩

variable {graph : Graph} {left right : Binding}

/-- A binding with the smaller vertex at the first slot where two differ comes
first. -/
theorem precedes_of_vertex
    {bound lefts rights : List VertexId}
    {vertex other : VertexId}
    (leftVertices : left.vertices = bound ++ vertex :: lefts)
    (rightVertices : right.vertices = bound ++ other :: rights)
    (less : vertex < other) :
    left.Precedes graph right := by
  simp only [Precedes, key, leftVertices, rightVertices, List.map_append,
    List.map_cons, List.append_assoc, List.cons_append]
  exact List.append_left_lt (List.cons_lt_cons_iff.mpr (.inl less))

/-- Of two bindings of the same vertices the one with the smaller type number at
the first edge where they differ comes first. -/
theorem precedes_of_edge
    {chosen lefts rights : List EdgeId}
    {edge other : EdgeId}
    (vertices : left.vertices = right.vertices)
    (leftEdges : left.edges = chosen ++ edge :: lefts)
    (rightEdges : right.edges = chosen ++ other :: rights)
    (less : graph.typeNumber edge < graph.typeNumber other) :
    left.Precedes graph right := by
  simp only [Precedes, key, vertices, leftEdges, rightEdges, List.map_append,
    List.map_cons]
  exact List.append_left_lt
    (List.append_left_lt (List.cons_lt_cons_iff.mpr (.inl less)))

end Binding

namespace Enumeration

variable {α : Type}

theorem mem_append {first next : Enumeration} {binding : Binding}
    (member : binding ∈ (first.append next).bindings) :
    binding ∈ first.bindings ∨ binding ∈ next.bindings := by
  unfold append at member
  split at member
  · exact List.mem_append.mp member
  · exact .inl member

/-- A binding of a loop comes from one of its items. -/
theorem mem_each {items : List α} {body : α → Enumeration} {binding : Binding}
    (member : binding ∈ (each items body).bindings) :
    ∃ item ∈ items, binding ∈ (body item).bindings := by
  induction items with
  | nil => cases member
  | cons first rest inductionHypothesis =>
      rcases mem_append member with here | later
      · exact ⟨first, .head _, here⟩
      · obtain ⟨item, found, inside⟩ := inductionHypothesis later
        exact ⟨item, .tail _ found, inside⟩

/-- Nested loops enumerate in order if the items are in order and what is
enumerated for each item is. -/
theorem pairwise_each
    {items : List α}
    {body : α → Enumeration}
    {Before : α → α → Prop}
    {Precedes : Binding → Binding → Prop}
    (ordered : items.Pairwise Before)
    (inner : ∀ item, (body item).bindings.Pairwise Precedes)
    (outer : ∀ item later, Before item later →
      ∀ left ∈ (body item).bindings, ∀ right ∈ (body later).bindings,
        Precedes left right) :
    (each items body).bindings.Pairwise Precedes := by
  induction items with
  | nil => exact .nil
  | cons first rest inductionHypothesis =>
      obtain ⟨before, orderedRest⟩ := List.pairwise_cons.mp ordered
      have joined :
          each (first :: rest) body = (body first).append (each rest body) :=
        rfl
      rw [joined, append]
      split
      · refine List.pairwise_append.mpr
          ⟨inner first, inductionHypothesis orderedRest, ?_⟩
        intro left inFirst right inRest
        obtain ⟨later, found, inside⟩ := mem_each inRest
        exact outer first later (before later found) left inFirst right inside
      · exact inner first

theorem mem_given
    {value : Except Error α}
    {body : α → Enumeration}
    {binding : Binding}
    (member : binding ∈ (given value body).bindings) :
    ∃ item, value = .ok item ∧ binding ∈ (body item).bindings := by
  cases value with
  | error error => cases member
  | ok item => exact ⟨item, rfl, member⟩

theorem pairwise_given
    {value : Except Error α}
    {body : α → Enumeration}
    {Precedes : Binding → Binding → Prop}
    (inner : ∀ item, value = .ok item →
      (body item).bindings.Pairwise Precedes) :
    (given value body).bindings.Pairwise Precedes := by
  cases value with
  | error error => exact .nil
  | ok item => exact inner item rfl

end Enumeration

/-! ## What the stages admit -/

/-- The neighbors a rule reads ascend. -/
theorem Rule.pairwise_neighbors
    {rule : Rule}
    {walkable : WalkableGraph}
    {bound admitted : List VertexId}
    (found : rule.neighbors walkable bound = .ok admitted) :
    admitted.Pairwise (· < ·) := by
  unfold neighbors at found
  split at found
  · cases found
    exact Id.pairwise_ascending _
  · cases found

namespace Stage

variable {graph : Graph} {bound : List VertexId}

theorem pairwise_narrow {stage : Stage} {admitted narrowed : List VertexId}
    (ascending : admitted.Pairwise (· < ·))
    (found : stage.narrow graph.walkable bound admitted = .ok narrowed) :
    narrowed.Pairwise (· < ·) := by
  induction stage generalizing admitted with
  | nil =>
      cases found
      exact ascending
  | cons rule rest inductionHypothesis =>
      rw [narrow] at found
      split at found
      · cases found
      · cases found
        exact .nil
      · exact inductionHypothesis
          (ascending.sublist (sublist_intersectAscending _ _)) found

/-- The intersection of a stage ascends. -/
theorem pairwise_intersection {stage : Stage} {admitted : List VertexId}
    (found : stage.intersection graph.walkable bound = .ok admitted) :
    admitted.Pairwise (· < ·) := by
  unfold intersection at found
  split at found
  · cases found
    exact .nil
  · split at found
    · cases found
    · cases found
      exact .nil
    · rename_i neighbors
      exact pairwise_narrow (Rule.pairwise_neighbors neighbors) found

/-- What a stage admits is in ascending order. -/
theorem pairwise_admissible {stage : Stage} {admitted : List VertexId}
    (found : stage.admissible graph.walkable bound = .ok admitted) :
    admitted.Pairwise (· < ·) := by
  unfold admissible at found
  split at found
  · cases found
    exact graph.pairwise_vertexIds
  · exact pairwise_intersection found

end Stage

namespace EdgeLookup

variable {lookup : EdgeLookup} {vertices : List VertexId}

theorem getElem?_of_endpoint
    {slot : Nat}
    {vertex : VertexId}
    (bound : lookup.endpoint vertices slot = .ok vertex) :
    vertices[slot]? = some vertex := by
  unfold endpoint at bound
  split at bound
  · cases bound
    assumption
  · cases bound

/-- A relation is resolved to the edges that join the vertices of its ends. -/
theorem exists_of_resolve {walkable : WalkableGraph} {edges : List EdgeId}
    (resolved : lookup.resolve walkable vertices = .ok edges) :
    ∃ start stop, vertices[lookup.source]? = some start ∧
      vertices[lookup.target]? = some stop ∧
      edges = walkable.edgesJoining start stop lookup.type lookup.version := by
  unfold resolve at resolved
  obtain ⟨start, source, resolved⟩ := exists_of_bind_eq_ok resolved
  obtain ⟨stop, target, found⟩ := exists_of_bind_eq_ok resolved
  refine ⟨start, stop, getElem?_of_endpoint source, getElem?_of_endpoint target,
    ?_⟩
  split at found
  · cases found
  · cases found
    rfl

/-- A relation is resolved to edges in ascending order of their types. -/
theorem pairwise_resolve
    {graph : Graph}
    (sound : graph.Sound)
    {edges : List EdgeId}
    (resolved : lookup.resolve graph.walkable vertices = .ok edges) :
    edges.Pairwise fun edge later =>
      graph.typeNumber edge < graph.typeNumber later := by
  obtain ⟨start, stop, _, _, rfl⟩ := exists_of_resolve resolved
  exact sound.pairwise_edgesJoining start stop lookup.type lookup.version

end EdgeLookup

namespace Plan

variable {graph : Graph}

/-- Choices of edges with ascending type numbers make ascending bindings. -/
theorem pairwise_chosen
    {plan : Plan}
    {vertices : List VertexId}
    {choices : List (List EdgeId)}
    (ordered : ∀ edges ∈ choices,
      edges.Pairwise fun edge later =>
        graph.typeNumber edge < graph.typeNumber later)
    (edges : List EdgeId) :
    (plan.chosen graph vertices choices edges).Pairwise
      (Binding.Precedes graph) := by
  induction choices generalizing edges with
  | nil =>
      rw [chosen]
      split
      · exact List.pairwise_singleton _ _
      · exact .nil
  | cons first rest inductionHypothesis =>
      rw [chosen, List.pairwise_flatMap]
      refine ⟨fun edge _ => inductionHypothesis (fun other later =>
        ordered other (.tail _ later)) _, ?_⟩
      refine (ordered first (.head _)).imp
        fun {edge other} less left inFirst right inLater => ?_
      obtain ⟨later, _, rfl, _⟩ := mem_chosen.mp inFirst
      obtain ⟨others, _, rfl, _⟩ := mem_chosen.mp inLater
      exact Binding.precedes_of_edge rfl (List.append_assoc _ _ _)
        (List.append_assoc _ _ _) less

/-- The completions of one tuple of vertices ascend. -/
theorem pairwise_resolved
    (plan : Plan)
    (sound : graph.Sound)
    (vertices : List VertexId) :
    (plan.resolved graph.walkable vertices).bindings.Pairwise
      (Binding.Precedes graph) := by
  refine Enumeration.pairwise_given fun choices resolved => ?_
  refine pairwise_chosen (fun edges member => ?_) []
  obtain ⟨lookup, _, found⟩ :=
    exists_left_of_forall₂ (forall₂_of_mapM_ok resolved) member
  exact lookup.pairwise_resolve sound found

theorem vertices_of_mem_resolved
    {plan : Plan}
    {vertices : List VertexId}
    {binding : Binding}
    (member : binding ∈ (plan.resolved graph.walkable vertices).bindings) :
    binding.vertices = vertices := by
  obtain ⟨choices, _, inside⟩ := Enumeration.mem_given member
  obtain ⟨later, _, rfl, _⟩ := mem_chosen.mp inside
  rfl

/-- Every binding below a tuple starts with the vertices of the tuple. -/
theorem vertices_of_mem_extended
    {plan : Plan}
    {stages : List (Stage × Option TypeId)}
    {bound : List VertexId}
    {binding : Binding}
    (member : binding ∈ (plan.extended graph.walkable stages bound).bindings) :
    ∃ later, binding.vertices = bound ++ later := by
  induction stages generalizing bound with
  | nil => exact ⟨[], by rw [vertices_of_mem_resolved member, List.append_nil]⟩
  | cons first rest inductionHypothesis =>
      obtain ⟨candidates, _, inside⟩ := Enumeration.mem_given member
      obtain ⟨vertex, _, deeper⟩ := Enumeration.mem_each inside
      obtain ⟨later, vertices⟩ := inductionHypothesis deeper
      exact ⟨vertex :: later, by simpa using vertices⟩

/-- The bindings that extend ascending candidates are in order. -/
theorem pairwise_extensions
    (plan : Plan)
    {stages : List (Stage × Option TypeId)}
    {candidates : List VertexId}
    (ascending : candidates.Pairwise (· < ·))
    (type : Option TypeId)
    (bound : List VertexId)
    (inner : ∀ vertex,
      (plan.extended graph.walkable stages
        (bound ++ [vertex])).bindings.Pairwise (Binding.Precedes graph)) :
    (Enumeration.each (candidates.filter (graph.hasType type)) fun vertex =>
      plan.extended graph.walkable stages (bound ++ [vertex])).bindings.Pairwise
        (Binding.Precedes graph) := by
  refine Enumeration.pairwise_each (ascending.filter _) inner ?_
  intro vertex other less left inVertex right inOther
  obtain ⟨lefts, leftVertices⟩ := vertices_of_mem_extended inVertex
  obtain ⟨rights, rightVertices⟩ := vertices_of_mem_extended inOther
  rw [List.append_assoc] at leftVertices rightVertices
  exact Binding.precedes_of_vertex leftVertices rightVertices less

/-- The bindings below a tuple ascend: candidates by vertex, then each one below
itself. -/
theorem pairwise_extended (plan : Plan) (sound : graph.Sound)
    (stages : List (Stage × Option TypeId)) (bound : List VertexId) :
    (plan.extended graph.walkable stages bound).bindings.Pairwise
      (Binding.Precedes graph) := by
  induction stages generalizing bound with
  | nil => exact plan.pairwise_resolved sound bound
  | cons first rest inductionHypothesis =>
      refine Enumeration.pairwise_given fun candidates found => ?_
      exact plan.pairwise_extensions (Stage.pairwise_admissible found) first.2
        bound fun vertex =>
          inductionHypothesis (bound ++ [vertex])

/-- The bindings of a scan ascend: sources, targets of a source, then what is
below the pair. -/
theorem pairwise_scanned
    (plan : Plan)
    (sound : graph.Sound)
    (first : Rule)
    (stage : Stage)
    (sourceType targetType : Option TypeId)
    (rest : List (Stage × Option TypeId)) :
    (plan.scanned graph.walkable first stage sourceType targetType
      rest).bindings.Pairwise
      (Binding.Precedes graph) := by
  have sources := (graph.pairwise_sources first.version first.direction).filter
    (graph.hasType sourceType)
  refine Enumeration.pairwise_each sources (fun source => ?_) ?_
  · refine Enumeration.pairwise_given fun candidates found => ?_
    exact plan.pairwise_extensions (Stage.pairwise_intersection found)
      targetType [source]
      fun target => plan.pairwise_extended sound rest [source, target]
  · intro source other less left inSource right inOther
    have starts {start : VertexId} {binding : Binding}
        (member : binding ∈
          (Enumeration.given (stage.intersection graph.walkable [start])
            fun candidates =>
              .each (candidates.filter (graph.hasType targetType)) fun target =>
                plan.extended graph.walkable rest [start, target]).bindings) :
        ∃ later, binding.vertices = [] ++ start :: later := by
      obtain ⟨candidates, _, inside⟩ := Enumeration.mem_given member
      obtain ⟨target, _, deeper⟩ := Enumeration.mem_each inside
      obtain ⟨later, vertices⟩ := vertices_of_mem_extended deeper
      exact ⟨target :: later, vertices⟩
    obtain ⟨lefts, leftVertices⟩ := starts inSource
    obtain ⟨rights, rightVertices⟩ := starts inOther
    exact Binding.precedes_of_vertex leftVertices rightVertices less

/-- A plan enumerates its bindings in ascending order. -/
theorem pairwise_enumeration (plan : Plan) (sound : graph.Sound) :
    (plan.enumeration graph.walkable).bindings.Pairwise
      (Binding.Precedes graph) := by
  unfold enumeration
  split
  · exact .nil
  · split
    · exact plan.pairwise_scanned sound _ _ _ _ _
    · exact .nil

end Plan

end DeltaGraph
