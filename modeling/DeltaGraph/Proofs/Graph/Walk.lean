import DeltaGraph.Execution
import DeltaGraph.Proofs.Graph.Sound

/-!
# Walking sound graphs

The lists that a walk reads hold what the table of edges holds, each member
once and in ascending order, and the rules of a stage admit the vertices that
all of them admit.
-/

namespace DeltaGraph

namespace Graph

/-- A link with an edge of a version, of the type if one is given. -/
def Shows
    (graph : Graph)
    (version : Version)
    (type : Option TypeId)
    (link : Link)
    (edge : Edge) : Prop :=
  graph.edges[link]? = some edge ∧ edge.history.visible version = true ∧
    link.hasType type = true

/-- The edges incident to a vertex are those whose near end it is. -/
theorem mem_incident
    {graph : Graph}
    {vertex : VertexId}
    {direction : Direction}
    {link : Link}
    {edge : Edge} :
    (link, edge) ∈ graph.incident vertex direction ↔
      graph.edges[link]? = some edge ∧ link.near direction = vertex := by
  simp [incident, Std.ExtTreeMap.mem_toList_iff_getElem?_eq_some]

/-- The neighbors of a vertex are the far ends of the edges shown at it. -/
theorem mem_neighbors
    {graph : Graph}
    {vertex other : VertexId}
    {direction : Direction}
    {version : Version}
    {type : Option TypeId} :
    other ∈ graph.walkable.neighbors vertex direction version type ↔
      ∃ link edge, graph.Shows version type link edge ∧
        link.near direction = vertex ∧
        link.far direction = other := by
  simp only [WalkableGraph.neighbors, walkable, Id.mem_ascending,
    List.mem_filterMap, Prod.exists, mem_incident,
    Option.ite_none_right_eq_some, Option.some.injEq, Shows]
  constructor
  · rintro ⟨link, edge, ⟨found, near⟩, shown, far⟩
    exact ⟨link, edge, ⟨found, shown⟩, near, far⟩
  · rintro ⟨link, edge, ⟨found, shown⟩, near, far⟩
    exact ⟨link, edge, ⟨found, near⟩, shown, far⟩

/-- The edges joining two vertices are those shown between them. -/
theorem mem_edgesJoining
    {graph : Graph}
    {source target : VertexId}
    {type : Option TypeId}
    {version : Version}
    {id : EdgeId} :
    id ∈ graph.walkable.edgesJoining source target type version ↔
      ∃ link edge, graph.Shows version type link edge ∧ link.source = source ∧
        link.target = target ∧ edge.id = id := by
  simp only [WalkableGraph.edgesJoining, walkable, joining, List.mem_filterMap,
    List.mem_filter, Prod.exists, mem_incident, decide_eq_true_eq,
    Option.ite_none_right_eq_some, Option.some.injEq, Shows, Link.near]
  constructor
  · rintro ⟨link, edge, ⟨⟨found, near⟩, far⟩, shown, number⟩
    exact ⟨link, edge, ⟨found, shown⟩, near, far, number⟩
  · rintro ⟨link, edge, ⟨found, shown⟩, near, far, number⟩
    exact ⟨link, edge, ⟨⟨found, near⟩, far⟩, shown, number⟩

theorem mem_vertexIds {graph : Graph} {vertex : VertexId} :
    vertex ∈ graph.vertexIds ↔ vertex ∈ graph.vertices :=
  Std.ExtTreeMap.mem_keys

theorem pairwise_vertexIds (graph : Graph) :
    graph.vertexIds.Pairwise (· < ·) := by
  refine Std.ExtTreeMap.ordered_keys.imp fun {left right} less => ?_
  rw [Id.compare_def, Nat.compare_eq_lt] at less
  exact less

namespace Sound

variable {graph : Graph}

/-- In a sound graph the edges that join two vertices have different numbers. -/
theorem nodup_edgesJoining (sound : graph.Sound) (source target : VertexId)
    (type : Option TypeId) (version : Version) :
    (graph.walkable.edgesJoining source target type version).Nodup := by
  have entries :
      ((graph.walkable.joining source target)).Sublist graph.edges.toList :=
    List.filter_sublist.trans List.filter_sublist
  refine List.pairwise_filterMap.mpr ?_
  refine (Std.ExtTreeMap.distinct_keys_toList.sublist entries).imp_of_mem ?_
  rintro ⟨link, edge⟩ ⟨other, another⟩ member otherMember different id number _
    otherNumber rfl
  have found :=
    Std.ExtTreeMap.mem_toList_iff_getElem?_eq_some.mp (entries.subset member)
  have otherFound :=
    Std.ExtTreeMap.mem_toList_iff_getElem?_eq_some.mp
      (entries.subset otherMember)
  simp only [Option.ite_none_right_eq_some, Option.some.injEq]
    at number otherNumber
  have same :=
    sound.link_unique found otherFound (number.2.trans otherNumber.2.symm)
  exact different (by simp [same])

/-- The sources of a version are the near ends of its edges: every edge of a
difference version is in the batch. -/
theorem mem_sources
    (sound : graph.Sound)
    {version : Version}
    {direction : Direction}
    {vertex : VertexId} :
    vertex ∈ graph.sources version direction ↔
      ∃ (link : Link) (edge : Edge), graph.edges[link]? = some edge ∧
        edge.history.visible version = true ∧ link.near direction = vertex := by
  simp only [Graph.sources, Id.mem_ascending, List.mem_map]
  split
  · rename_i difference
    simp only [Graph.batchIn, List.mem_filter, Std.ExtTreeSet.mem_toList]
    constructor
    · rintro ⟨link, ⟨_, shown⟩, near⟩
      obtain ⟨edge, found, visible⟩ := (Option.any_eq_true _ _).mp shown
      exact ⟨link, edge, found, visible, near⟩
    · rintro ⟨link, edge, found, visible, near⟩
      refine ⟨link, ⟨?_, by simp [found, visible]⟩, near⟩
      by_contra notTouched
      rw [sound.untouched found notTouched] at visible
      cases version <;>
        simp [Version.isDifference, EdgeHistory.visible] at difference visible
  · simp only [Graph.edgesIn, List.mem_map, List.mem_filter, Prod.exists,
      Std.ExtTreeMap.mem_toList_iff_getElem?_eq_some]
    constructor
    · rintro ⟨link, ⟨_, edge, ⟨found, visible⟩, rfl⟩, near⟩
      exact ⟨_, edge, found, visible, near⟩
    · rintro ⟨link, edge, found, visible, near⟩
      exact ⟨link, ⟨link, edge, ⟨found, visible⟩, rfl⟩, near⟩

/-- A neighbor in a sound graph is a vertex of the graph. -/
theorem known_of_mem_neighbors
    (sound : graph.Sound)
    {vertex other : VertexId}
    {direction : Direction}
    {version : Version}
    {type : Option TypeId}
    (neighbor : other ∈
      graph.walkable.neighbors vertex direction version type) :
    other ∈ graph.vertices := by
  obtain ⟨link, edge, ⟨found, _⟩, _, rfl⟩ := mem_neighbors.mp neighbor
  cases direction with
  | forward => exact sound.ends found .backward
  | backward => exact sound.ends found .forward

end Sound

/-- Neighbors are listed in ascending order, each of them once. -/
theorem pairwise_neighbors
    (graph : Graph)
    (vertex : VertexId)
    (direction : Direction)
    (version : Version)
    (type : Option TypeId) :
    (graph.walkable.neighbors vertex direction version type).Pairwise (· < ·) :=
  Id.pairwise_ascending _

theorem pairwise_sources
    (graph : Graph)
    (version : Version)
    (direction : Direction) :
    (graph.sources version direction).Pairwise (· < ·) :=
  Id.pairwise_ascending _

end Graph

/-! ## Common members -/

/-- A list in strictly ascending order has no member twice. -/
theorem nodup_of_ascending
    {ids : List VertexId}
    (ascending : ids.Pairwise (· < ·)) :
    ids.Nodup :=
  ascending.imp fun {left right} less same => by
    rw [Id.lt_def, same] at less
    exact Nat.lt_irrefl _ less

/-- Skipping an ascending list up to a bound drops what lies below the bound and
nothing else. -/
theorem mem_dropWhile_of_ascending
    {ids : List VertexId}
    (ascending : ids.Pairwise (· < ·))
    (bound vertex : VertexId) :
    vertex ∈ ids.dropWhile (· < bound) ↔ vertex ∈ ids ∧ ¬ vertex < bound := by
  induction ids with
  | nil => simp
  | cons first rest inductionHypothesis =>
      obtain ⟨above, restAscending⟩ := List.pairwise_cons.mp ascending
      by_cases less : first < bound
      · rw [List.dropWhile_cons_of_pos (by simpa using less),
          inductionHypothesis restAscending]
        constructor
        · rintro ⟨member, notLess⟩
          exact ⟨.tail _ member, notLess⟩
        · rintro ⟨member, notLess⟩
          rcases List.mem_cons.mp member with rfl | member
          · exact absurd less notLess
          · exact ⟨member, notLess⟩
      · rw [List.dropWhile_cons_of_neg (by simpa using less)]
        refine ⟨fun member => ⟨member, ?_⟩, And.left⟩
        rcases List.mem_cons.mp member with rfl | later
        · exact less
        · have greater := above vertex later
          rw [Id.lt_def] at *
          omega

theorem sublist_intersectAscending (lefts rights : List VertexId) :
    (intersectAscending lefts rights).Sublist lefts := by
  induction lefts generalizing rights with
  | nil => exact .slnil
  | cons left lefts inductionHypothesis =>
      rw [intersectAscending]
      split
      · exact (inductionHypothesis _).cons_cons left
      · exact (inductionHypothesis _).cons left

/-- What is left of an ascending list from a bound on starts with the bound if
the bound is in the list. -/
theorem head?_dropWhile_of_ascending
    {ids : List VertexId}
    (ascending : ids.Pairwise (· < ·))
    (bound : VertexId) :
    (ids.dropWhile (· < bound)).head? = some bound ↔ bound ∈ ids := by
  have kept := mem_dropWhile_of_ascending ascending bound
  constructor
  · intro head
    exact ((kept bound).mp (List.mem_of_head? head)).1
  · intro member
    have found := (kept bound).mpr ⟨member, Nat.lt_irrefl _⟩
    have keptAscending : (ids.dropWhile (· < bound)).Pairwise (· < ·) :=
      ascending.sublist (List.dropWhile_sublist _)
    cases remaining : ids.dropWhile (· < bound) with
    | nil =>
        rw [remaining] at found
        cases found
    | cons smallest others =>
        rw [remaining] at found keptAscending
        rcases List.mem_cons.mp found with rfl | later
        · rfl
        · have notLess := ((kept smallest).mp (remaining ▸ .head _)).2
          exact absurd ((List.pairwise_cons.mp keptAscending).1 bound later)
            notLess

/-- Intersecting ascending lists gives their common members. -/
theorem mem_intersectAscending
    {lefts rights : List VertexId}
    (leftsAscending : lefts.Pairwise (· < ·))
    (rightsAscending : rights.Pairwise (· < ·))
    {vertex : VertexId} :
    vertex ∈ intersectAscending lefts rights ↔
      vertex ∈ lefts ∧ vertex ∈ rights := by
  induction lefts generalizing rights with
  | nil => simp [intersectAscending]
  | cons left lefts inductionHypothesis =>
      obtain ⟨above, restAscending⟩ := List.pairwise_cons.mp leftsAscending
      have keptAscending : (rights.dropWhile (· < left)).Pairwise (· < ·) :=
        rightsAscending.sublist (List.dropWhile_sublist _)
      have rest :
          vertex ∈ intersectAscending lefts (rights.dropWhile (· < left)) ↔
            vertex ∈ lefts ∧ vertex ∈ rights := by
        rw [inductionHypothesis restAscending keptAscending,
          mem_dropWhile_of_ascending rightsAscending]
        refine and_congr_right fun member => and_iff_left ?_
        exact Nat.lt_asymm (above vertex member)
      rw [intersectAscending]
      simp only [head?_dropWhile_of_ascending rightsAscending]
      split
      · rename_i member
        rw [List.mem_cons, List.mem_cons, rest, or_and_right]
        exact or_congr_left (iff_self_and.mpr fun same => same ▸ member)
      · rename_i missing
        have absent : ¬ (vertex = left ∧ vertex ∈ rights) :=
          fun both => missing (both.1 ▸ both.2)
        rw [rest, List.mem_cons, or_and_right, or_iff_right absent]

/-! ## Stages -/

/-- A vertex that a rule admits after the bound ones. -/
def Rule.Admits
    (rule : Rule)
    (graph : Graph)
    (bound : List VertexId)
    (vertex : VertexId) :
    Prop :=
  ∃ start, bound[rule.slot]? = some start ∧
    vertex ∈
      graph.walkable.neighbors start rule.direction rule.version rule.type

/-- A rule whose slot is bound reads the vertices it admits, in ascending
order. -/
theorem Rule.neighbors_eq (rule : Rule) (graph : Graph) {bound : List VertexId}
    (inside : rule.slot < bound.length) :
    ∃ admitted, rule.neighbors graph.walkable bound = .ok admitted ∧
      admitted.Pairwise (· < ·) ∧ ∀ vertex, vertex ∈ admitted ↔
        rule.Admits graph bound vertex := by
  have found : bound[rule.slot]? = some bound[rule.slot] :=
    List.getElem?_eq_getElem inside
  refine ⟨_, by rw [Rule.neighbors, found], graph.pairwise_neighbors _ _ _ _,
    fun vertex => ?_⟩
  simp [Rule.Admits, found]

/-- A rule that admits a vertex after a single one starts at one of its
sources. -/
theorem Rule.mem_sources_of_admits
    {rule : Rule}
    {graph : Graph}
    (sound : graph.Sound)
    {source target : VertexId}
    (admits : rule.Admits graph [source] target) :
    source ∈ graph.sources rule.version rule.direction := by
  obtain ⟨start, bound, neighbor⟩ := admits
  have same : start = source :=
    List.mem_singleton.mp (List.mem_of_getElem? bound)
  obtain ⟨link, edge, ⟨present, visible, _⟩, near, _⟩ :=
    Graph.mem_neighbors.mp neighbor
  exact sound.mem_sources.mpr ⟨link, edge, present, visible, near.trans same⟩

namespace Stage

variable {graph : Graph} {bound : List VertexId}

/-- Narrowing by the rules of a stage keeps the vertices that every rule admits,
in ascending order. -/
theorem narrow_eq
    (stage : Stage)
    (inside : ∀ rule ∈ stage, rule.slot < bound.length)
    {admitted : List VertexId}
    (ascending : admitted.Pairwise (· < ·)) :
    ∃ narrowed, stage.narrow graph.walkable bound admitted = .ok narrowed ∧
      narrowed.Pairwise (· < ·) ∧
      ∀ vertex, vertex ∈ narrowed ↔
        vertex ∈ admitted ∧ ∀ rule ∈ stage, rule.Admits graph bound vertex := by
  induction stage generalizing admitted with
  | nil => exact ⟨admitted, rfl, ascending, by simp⟩
  | cons rule rest inductionHypothesis =>
      obtain ⟨neighbors, found, neighborsAscending, member⟩ :=
        rule.neighbors_eq graph (inside rule (.head _))
      rw [narrow, found]
      cases neighbors with
      | nil =>
          refine ⟨[], rfl, .nil, fun vertex => ?_⟩
          have nothing : ¬ rule.Admits graph bound vertex := by simp [← member]
          simp [nothing]
      | cons first others =>
          have common := sublist_intersectAscending admitted (first :: others)
          obtain ⟨narrowed, result, narrowedAscending, narrowedMember⟩ :=
            inductionHypothesis
              (fun other later => inside other (.tail _ later))
              (ascending.sublist common)
          refine ⟨narrowed, result, narrowedAscending, fun vertex => ?_⟩
          rw [narrowedMember,
            mem_intersectAscending ascending neighborsAscending, member,
            List.forall_mem_cons, and_assoc]

/-- The intersection of a stage that reads bound slots is the vertices every
rule admits, in ascending order. -/
theorem intersection_eq (graph : Graph) {stage : Stage} (nonempty : stage ≠ [])
    (inside : ∀ rule ∈ stage, rule.slot < bound.length) :
    ∃ admitted, stage.intersection graph.walkable bound = .ok admitted ∧
      admitted.Pairwise (· < ·) ∧
      ∀ vertex, vertex ∈ admitted ↔
        ∀ rule ∈ stage, rule.Admits graph bound vertex := by
  cases stage with
  | nil => exact absurd rfl nonempty
  | cons rule rest =>
      obtain ⟨neighbors, found, ascending, member⟩ :=
        rule.neighbors_eq graph (inside rule (.head _))
      rw [intersection, found]
      cases neighbors with
      | nil =>
          refine ⟨[], rfl, .nil, fun vertex => ?_⟩
          have nothing : ¬ rule.Admits graph bound vertex := by simp [← member]
          simp [nothing]
      | cons first others =>
          obtain ⟨narrowed, result, narrowedAscending, narrowedMember⟩ :=
            narrow_eq rest (fun other later => inside other (.tail _ later))
              ascending
          refine ⟨narrowed, result, narrowedAscending, fun vertex => ?_⟩
          rw [narrowedMember, member, List.forall_mem_cons]

/-- A stage whose rules start at bound vertices admits, in ascending order, the
known vertices that all rules admit. -/
theorem admissible_eq
    (stage : Stage)
    (sound : graph.Sound)
    (bound : List VertexId)
    (inside : ∀ rule ∈ stage, rule.slot < bound.length) :
    ∃ admitted, stage.admissible graph.walkable bound = .ok admitted ∧
      admitted.Pairwise (· < ·) ∧
      ∀ vertex, vertex ∈ admitted ↔
        vertex ∈ graph.vertices ∧
          ∀ rule ∈ stage, rule.Admits graph bound vertex := by
  unfold admissible
  cases stage with
  | nil =>
      refine ⟨graph.vertexIds, rfl, graph.pairwise_vertexIds, fun vertex => ?_⟩
      simp [Graph.mem_vertexIds]
  | cons rule rest =>
      obtain ⟨admitted, found, ascending, member⟩ :=
        intersection_eq graph (List.cons_ne_nil rule rest) inside
      refine ⟨admitted, found, ascending, fun vertex => ?_⟩
      rw [member, iff_and_self]
      intro admits
      obtain ⟨start, _, neighbor⟩ := admits rule (.head _)
      exact sound.known_of_mem_neighbors neighbor

end Stage

end DeltaGraph
