import DeltaGraph.Proofs.Graph.Run
import Mathlib.Tactic.Common

/-!
# Sound graphs

The parts of a reachable graph agree with each other: the numbers of the edges
are those in the table of edges, every edge whose history is not plain is in the
batch, and the ends of edges are known.  Each step and each end of a batch keeps
this so.
-/

namespace DeltaGraph

namespace Graph

/-- The parts of a graph agree with each other. -/
structure Sound (graph : Graph) : Prop where
  /-- The numbers are those of the edges in the table. -/
  links_iff (id : EdgeId) (link : Link) :
    graph.links[id]? = some link ↔
      ∃ edge, graph.edges[link]? = some edge ∧ edge.id = id
  /-- The next number is not in use. -/
  fresh {link : Link} {edge : Edge} (found : graph.edges[link]? = some edge) :
    edge.id.number < graph.freshEdge
  /-- The batch holds edges of the table. -/
  tracked {link : Link} (touched : link ∈ graph.batch) :
    ∃ edge, graph.edges[link]? = some edge
  /-- The batch has touched every edge that is not plainly committed. -/
  untouched {link : Link} {edge : Edge} (found : graph.edges[link]? = some edge)
    (untouched : link ∉ graph.batch) : edge.history = .committed
  /-- The ends of edges are known. -/
  ends {link : Link} {edge : Edge} (found : graph.edges[link]? = some edge)
    (direction : Direction) : link.near direction ∈ graph.vertices
  /-- The vertices that the batch created are known. -/
  created {vertex : VertexId} (new : vertex ∈ graph.created) :
    vertex ∈ graph.vertices
  /-- The batch has not created the ends of committed edges. -/
  committed_ends {link : Link} {edge : Edge}
    (found : graph.edges[link]? = some edge)
    (committed : edge.history.visible .permanent = true)
    (direction : Direction) :
    link.near direction ∉ graph.created

theorem isPending_eq_false_iff {graph : Graph} :
    graph.isPending = false ↔ graph.batch = ∅ := by
  rw [isPending, Bool.not_eq_false', Std.ExtTreeSet.isEmpty_iff]

namespace Sound

/-- Edges with the same number have the same link. -/
theorem link_unique
    {graph : Graph}
    (sound : graph.Sound)
    {link other : Link}
    {edge another : Edge}
    (found : graph.edges[link]? = some edge)
    (otherFound : graph.edges[other]? = some another)
    (same : edge.id = another.id) :
    link = other := by
  have first := (sound.links_iff edge.id link).mpr ⟨edge, found, rfl⟩
  have second :=
    (sound.links_iff edge.id other).mpr ⟨another, otherFound, same.symm⟩
  exact Option.some.inj (first.symm.trans second)

/-- The number of an edge leads to the edge. -/
theorem edge?_eq_some_iff
    {graph : Graph}
    (sound : graph.Sound)
    {id : EdgeId}
    {link : Link}
    {edge : Edge} :
    graph.edge? id = some (link, edge) ↔
      graph.edges[link]? = some edge ∧ edge.id = id := by
  have number := sound.links_iff id
  simp only [edge?, Option.bind_eq_bind, Option.bind_eq_some_iff,
    Option.pure_def, Option.some.injEq, Prod.mk.injEq]
  constructor
  · rintro ⟨_, linked, found, present, rfl, rfl⟩
    obtain ⟨edge, again, same⟩ := (number _).mp linked
    rw [present] at again
    cases again
    exact ⟨present, same⟩
  · rintro ⟨present, same⟩
    exact ⟨link, (number link).mpr ⟨edge, present, same⟩, edge, present, rfl,
      rfl⟩

theorem empty : Graph.empty.Sound := by
  constructor <;> simp [Graph.empty]

end Sound

/-! ## Steps of a batch -/

/-- Writing a vertex that is not committed keeps a graph sound. -/
theorem Sound.writeVertex
    {graph : Graph}
    (sound : graph.Sound)
    {vertex : VertexId}
    (notCommitted : graph.isCommittedVertex vertex = false)
    (type : Option TypeId)
    (values : List (PropertyId × Value)) :
    (graph.writeVertex vertex type values).Sound where
  links_iff := sound.links_iff
  fresh := sound.fresh
  tracked := sound.tracked
  untouched := sound.untouched
  ends found direction := by
    simpa [Graph.writeVertex] using Or.inr (sound.ends found direction)
  created {other} new := by
    simp only [Graph.writeVertex, Std.ExtTreeSet.mem_insert,
      Std.LawfulEqOrd.compare_eq_iff_eq, Std.ExtTreeMap.mem_insert] at new ⊢
    exact new.imp_right sound.created
  committed_ends {link edge} found committed direction := by
    have known := sound.ends found direction
    have old := sound.committed_ends found committed direction
    simp only [Graph.writeVertex, Std.ExtTreeSet.mem_insert,
      Std.LawfulEqOrd.compare_eq_iff_eq, not_or]
    refine ⟨?_, old⟩
    -- A known vertex that the batch did not create is committed.
    rintro rfl
    simp [isCommittedVertex, known, old] at notCommitted

/-- A vertex that is not known is not committed. -/
theorem isCommittedVertex_of_unknown
    {graph : Graph}
    {vertex : VertexId}
    (unknown : vertex ∉ graph.vertices) :
    graph.isCommittedVertex vertex = false := by
  simp [isCommittedVertex, unknown]

/-- Making a vertex known keeps a graph sound. -/
theorem Sound.ensureVertex
    {graph : Graph}
    (sound : graph.Sound)
    (vertex : VertexId) :
    (graph.ensureVertex vertex).Sound := by
  unfold Graph.ensureVertex
  split
  · exact sound
  · rename_i unknown
    exact sound.writeVertex
      (isCommittedVertex_of_unknown (by simpa using unknown)) none []

@[simp] theorem ensureVertex_edges (graph : Graph) (vertex : VertexId) :
    (graph.ensureVertex vertex).edges = graph.edges := by
  unfold ensureVertex
  split <;> rfl

@[simp] theorem ensureVertex_batch (graph : Graph) (vertex : VertexId) :
    (graph.ensureVertex vertex).batch = graph.batch := by
  unfold ensureVertex
  split <;> rfl

/-- A vertex is known once it is made known, and so are those known before. -/
theorem mem_ensureVertex {graph : Graph} {vertex other : VertexId} :
    other ∈ (graph.ensureVertex vertex).vertices ↔
      vertex = other ∨ other ∈ graph.vertices := by
  unfold ensureVertex
  split
  · rename_i known
    constructor
    · exact .inr
    · rintro (rfl | found)
      · simpa using known
      · exact found
  · simp [writeVertex]

/-- The edge that the batch has added to a graph. -/
def addedEdge
    (graph : Graph)
    (link : Link)
    (values : List (PropertyId × Value)) : Edge :=
  match graph.edges[link]? with
  | some edge =>
      { edge with
        history := edge.history.add
        properties := edge.properties.setAll values }
  | none => ⟨⟨graph.freshEdge⟩, .added, Properties.setAll ∅ values⟩

/-- Writing an edge gives its number. -/
theorem writeEdge_fst
    (graph : Graph)
    (link : Link)
    (values : List (PropertyId × Value)) :
    (graph.writeEdge link values).1 = (graph.addedEdge link values).id := by
  cases found : graph.edges[link]? <;> simp [writeEdge, addedEdge, found]

@[simp] theorem writeEdge_edges (graph : Graph) (link : Link)
    (values : List (PropertyId × Value)) :
    (graph.writeEdge link values).2.edges =
      graph.edges.insert link (graph.addedEdge link values) := by
  cases found : graph.edges[link]? <;> simp [writeEdge, addedEdge, found]

@[simp] theorem writeEdge_batch (graph : Graph) (link : Link)
    (values : List (PropertyId × Value)) :
    (graph.writeEdge link values).2.batch = graph.batch.insert link := by
  unfold writeEdge
  split <;> rfl

@[simp] theorem writeEdge_vertices (graph : Graph) (link : Link)
    (values : List (PropertyId × Value)) :
    (graph.writeEdge link values).2.vertices = graph.vertices := by
  unfold writeEdge
  split <;> rfl

@[simp] theorem writeEdge_created (graph : Graph) (link : Link)
    (values : List (PropertyId × Value)) :
    (graph.writeEdge link values).2.created = graph.created := by
  unfold writeEdge
  split <;> rfl

/-- The table of edges once an edge is written. -/
theorem getElem?_writeEdge (graph : Graph) (link other : Link)
    (values : List (PropertyId × Value)) :
    (graph.writeEdge link values).2.edges[other]? =
      if link = other then some (graph.addedEdge link values)
        else graph.edges[other]? := by
  rw [writeEdge_edges, Std.ExtTreeMap.getElem?_insert]
  simp only [Std.LawfulEqOrd.compare_eq_iff_eq]

/-- An added edge is committed only if there was a committed edge before. -/
theorem committed_of_addedEdge
    {graph : Graph}
    {link : Link}
    {values : List (PropertyId × Value)}
    (committed : (graph.addedEdge link values).history.visible .permanent =
      true) :
    ∃ edge, graph.edges[link]? = some edge ∧
      edge.history.visible .permanent = true := by
  unfold addedEdge at committed
  split at committed
  · rename_i edge found
    exact ⟨edge, found, by simpa using committed⟩
  · simp [EdgeHistory.visible] at committed

/-- Once an edge is written, the numbers are still those of the edges in the
table. -/
theorem Sound.links_iff_writeEdge
    {graph : Graph}
    (sound : graph.Sound)
    (link : Link)
    (values : List (PropertyId × Value))
    (id : EdgeId)
    (other : Link) :
    (graph.writeEdge link values).2.links[id]? = some other ↔
      ∃ edge, (graph.writeEdge link values).2.edges[other]? = some edge ∧
        edge.id = id := by
  rw [getElem?_writeEdge]
  cases found : graph.edges[link]? with
  | some edge =>
      have links : (graph.writeEdge link values).2.links = graph.links := by
        simp [Graph.writeEdge, found, touch]
      have number : (graph.addedEdge link values).id = edge.id := by
        simp [addedEdge, found]
      rw [links, sound.links_iff]
      by_cases same : link = other
      · subst same
        simp [found, number]
      · simp [same]
  | none =>
      have links : (graph.writeEdge link values).2.links =
          graph.links.insert ⟨graph.freshEdge⟩ link := by
        simp [Graph.writeEdge, found, touch]
      have number : (graph.addedEdge link values).id = ⟨graph.freshEdge⟩ := by
        simp [addedEdge, found]
      rw [links, Std.ExtTreeMap.getElem?_insert]
      simp only [Std.LawfulEqOrd.compare_eq_iff_eq]
      by_cases new : (⟨graph.freshEdge⟩ : EdgeId) = id
      · -- No edge of the table has the new number yet.
        have unused : ¬ ∃ edge, graph.edges[other]? = some edge ∧
            edge.id = id := by
          rintro ⟨edge, present, same⟩
          have below := sound.fresh present
          rw [same, ← new] at below
          exact Nat.lt_irrefl _ below
        by_cases same : link = other
        · subst same
          simp [new, number]
        · simpa [new, same] using unused
      · rw [if_neg new, sound.links_iff]
        by_cases same : link = other
        · subst same
          simp [found, number, new]
        · simp [same]

/-- Writing an edge whose ends are known keeps a graph sound. -/
theorem Sound.writeEdge
    {graph : Graph}
    (sound : graph.Sound)
    {link : Link}
    (known : ∀ direction, link.near direction ∈ graph.vertices)
    (values : List (PropertyId × Value)) :
    (graph.writeEdge link values).2.Sound where
  links_iff := sound.links_iff_writeEdge link values
  fresh {other edge} present := by
    rw [getElem?_writeEdge] at present
    cases found : graph.edges[link]? with
    | some stored =>
        have bound :
            (graph.writeEdge link values).2.freshEdge = graph.freshEdge := by
          simp [Graph.writeEdge, found, touch]
        rw [bound]
        split at present
        · cases present
          simpa [addedEdge, found] using sound.fresh found
        · exact sound.fresh present
    | none =>
        have bound :
            (graph.writeEdge link values).2.freshEdge =
              graph.freshEdge + 1 := by
          simp [Graph.writeEdge, found, touch]
        rw [bound]
        split at present
        · cases present
          simp [addedEdge, found]
        · exact Nat.lt_succ_of_lt (sound.fresh present)
  tracked {other} touched := by
    rw [getElem?_writeEdge]
    rw [writeEdge_batch] at touched
    split
    · exact ⟨_, rfl⟩
    · rename_i different
      have before : other ∈ graph.batch := by simpa [different] using touched
      exact sound.tracked before
  untouched {other edge} present notTouched := by
    rw [getElem?_writeEdge] at present
    simp only [writeEdge_batch, Std.ExtTreeSet.mem_insert,
      Std.LawfulEqOrd.compare_eq_iff_eq, not_or] at notTouched
    rw [if_neg notTouched.1] at present
    exact sound.untouched present notTouched.2
  ends {other edge} present direction := by
    rw [writeEdge_vertices]
    rw [getElem?_writeEdge] at present
    split at present
    · rename_i same
      exact same ▸ known direction
    · exact sound.ends present direction
  created {vertex} new := by
    rw [writeEdge_created] at new
    rw [writeEdge_vertices]
    exact sound.created new
  committed_ends {other edge} present committed direction := by
    rw [writeEdge_created]
    rw [getElem?_writeEdge] at present
    split at present
    · rename_i same
      subst same
      cases present
      obtain ⟨stored, found, storedCommitted⟩ :=
        committed_of_addedEdge committed
      exact sound.committed_ends found storedCommitted direction
    · exact sound.committed_ends present committed direction

/-- What removing an edge does, if there is one to remove. -/
theorem removeEdge?_eq_some {graph next : Graph} {link : Link}
    (removal : graph.removeEdge? link = some next) :
    ∃ edge history, graph.edges[link]? = some edge ∧
      edge.history.remove? = some history ∧
      next = { graph.touch link with
        edges := graph.edges.insert link { edge with history } } := by
  simp only [removeEdge?, Option.bind_eq_bind, Option.bind_eq_some_iff,
    Option.pure_def, Option.some.injEq] at removal
  obtain ⟨edge, found, history, removed, rfl⟩ := removal
  exact ⟨edge, history, found, removed, rfl⟩

/-- Removing an edge keeps a graph sound. -/
theorem Sound.removeEdge?
    {graph next : Graph}
    (sound : graph.Sound)
    {link : Link}
    (removal : graph.removeEdge? link = some next) : next.Sound := by
  obtain ⟨edge, history, found, removed, rfl⟩ := removeEdge?_eq_some removal
  have lookup (other : Link) :
      (graph.edges.insert link { edge with history })[other]? =
        if link = other then some { edge with history }
          else graph.edges[other]? := by
    simp only [Std.ExtTreeMap.getElem?_insert,
      Std.LawfulEqOrd.compare_eq_iff_eq]
  constructor
  case links_iff =>
    intro id other
    simp only [lookup, touch, sound.links_iff]
    by_cases same : link = other
    · subst same
      simp [found]
    · simp [same]
  case fresh =>
    intro other stored present
    simp only [lookup] at present
    split at present
    · cases present
      have below := sound.fresh found
      exact below
    · exact sound.fresh present
  case tracked =>
    intro other touched
    simp only [lookup]
    simp only [touch, Std.ExtTreeSet.mem_insert,
      Std.LawfulEqOrd.compare_eq_iff_eq] at touched
    split
    · exact ⟨_, rfl⟩
    · rename_i different
      exact sound.tracked (touched.resolve_left different)
  case untouched =>
    intro other stored present notTouched
    simp only [lookup] at present
    simp only [touch, Std.ExtTreeSet.mem_insert,
      Std.LawfulEqOrd.compare_eq_iff_eq, not_or] at notTouched
    rw [if_neg notTouched.1] at present
    exact sound.untouched present notTouched.2
  case ends =>
    intro other stored present direction
    simp only [lookup] at present
    split at present
    · rename_i same
      exact same ▸ sound.ends found direction
    · exact sound.ends present direction
  case created => exact sound.created
  case committed_ends =>
    intro other stored present committed direction
    simp only [lookup] at present
    split at present
    · rename_i same
      subst same
      cases present
      rw [(EdgeHistory.visible_of_remove? removed).2] at committed
      exact sound.committed_ends found committed direction
    · exact sound.committed_ends present committed direction

/-- Every step keeps a graph sound. -/
theorem Sound.stage {graph : Graph} (sound : graph.Sound) (step : BatchStep) :
    (graph.stage step).Sound := by
  rcases graph.stage_cases step
    with same | ⟨vertex, type, values, notCommitted, same⟩ |
    ⟨link, values, _, same⟩ | ⟨link, removal⟩
  · rw [same]
    exact sound
  · rw [same]
    exact sound.writeVertex notCommitted type values
  · rw [same]
    refine ((sound.ensureVertex link.source).ensureVertex link.target).writeEdge
      ?_ values
    intro direction
    cases direction <;> simp [mem_ensureVertex, Link.near]
  · exact sound.removeEdge? removal

/-! ## Ends of batches -/

/-- The edges of a version, as a batch that keeps this version leaves them. -/
def survivor? (graph : Graph) (version : Version) (link : Link) : Option Edge :=
  ((graph.edges[link]?).filter (·.history.visible version)).map fun edge =>
    { edge with history := .committed }

/-- An edge survives exactly if it belongs to the version. -/
theorem survivor?_eq_some_iff
    {graph : Graph}
    {version : Version}
    {link : Link}
    {edge : Edge} :
    graph.survivor? version link = some edge ↔
      ∃ stored, graph.edges[link]? = some stored ∧
        stored.history.visible version = true ∧
        { stored with history := .committed } = edge := by
  simp [survivor?, Option.filter_eq_some_iff, and_assoc]

/-- A batch that ends keeps the edges of a version. -/
theorem getElem?_settle (graph : Graph) (version : Version) (link : Link) :
    (graph.settle (·.visible version)).edges[link]? =
      graph.survivor? version link := by
  rw [settle, Std.ExtTreeMap.getElem?_filterMap', survivor?]
  cases graph.edges[link]? with
  | none => rfl
  | some edge =>
      cases shown : edge.history.visible version <;> simp [Option.filter, shown]

/-- Ending a batch keeps a graph sound. -/
theorem Sound.settle {graph : Graph} (sound : graph.Sound) (version : Version) :
    (graph.settle (·.visible version)).Sound where
  links_iff id link := by
    have present : link ∈ (graph.settle (·.visible version)).edges ↔
        ∃ edge,
          (graph.settle (·.visible version)).edges[link]? = some edge := by
      rw [Std.ExtTreeMap.mem_iff_isSome_getElem?, Option.isSome_iff_exists]
    have filtered : (graph.settle (·.visible version)).links[id]? = some link ↔
        graph.links[id]? = some link ∧
          link ∈ (graph.settle (·.visible version)).edges := by
      simp [Graph.settle, Option.filter_eq_some_iff]
    rw [filtered, present, sound.links_iff]
    simp only [getElem?_settle, survivor?_eq_some_iff]
    constructor
    · rintro ⟨⟨edge, found, rfl⟩, _, stored, again, shown, rfl⟩
      rw [found] at again
      cases again
      exact ⟨_, ⟨edge, found, shown, rfl⟩, rfl⟩
    · rintro ⟨_, ⟨stored, found, shown, rfl⟩, rfl⟩
      exact ⟨⟨stored, found, rfl⟩, _, stored, found, shown, rfl⟩
  fresh {link edge} found := by
    rw [getElem?_settle, survivor?_eq_some_iff] at found
    obtain ⟨stored, present, _, rfl⟩ := found
    have below := sound.fresh present
    exact below
  tracked touched := by simp [Graph.settle] at touched
  untouched {link edge} found _ := by
    rw [getElem?_settle, survivor?_eq_some_iff] at found
    obtain ⟨stored, _, _, rfl⟩ := found
    rfl
  ends {link edge} found direction := by
    rw [getElem?_settle, survivor?_eq_some_iff] at found
    obtain ⟨stored, present, _, _⟩ := found
    exact sound.ends present direction
  created new := by simp [Graph.settle] at new
  committed_ends _ _ _ := by simp [Graph.settle]

theorem Sound.commit
    {graph : Graph}
    (sound : graph.Sound) : graph.commit.2.Sound :=
  sound.settle .merged

/-- Taking back a batch keeps a graph sound: the ends of the edges that stay
were not created by the batch. -/
theorem Sound.rollback
    {graph : Graph}
    (sound : graph.Sound) :
    graph.rollback.2.Sound where
  links_iff := (sound.settle .permanent).links_iff
  fresh := (sound.settle .permanent).fresh
  tracked := (sound.settle .permanent).tracked
  untouched := (sound.settle .permanent).untouched
  ends {link edge} found direction := by
    have survives : graph.survivor? .permanent link = some edge := by
      rw [← getElem?_settle]
      exact found
    obtain ⟨stored, present, shown, _⟩ := survivor?_eq_some_iff.mp survives
    have known := sound.ends present direction
    have old : graph.created.contains (link.near direction) = false :=
      Bool.eq_false_iff.mpr (mt Std.ExtTreeSet.contains_iff_mem.mp
        (sound.committed_ends present shown direction))
    simp [Graph.rollback, Std.ExtTreeMap.mem_filter, Graph.settle, known, old]
  created new := by simp [Graph.rollback, Graph.settle] at new
  committed_ends _ _ _ := by simp [Graph.rollback, Graph.settle]

/-- Every reachable graph is sound. -/
theorem Reachable.sound
    {graph : Graph}
    (reachable : graph.Reachable) : graph.Sound := by
  induction reachable with
  | empty => exact .empty
  | stage step _ inductionHypothesis => exact inductionHypothesis.stage step
  | commit _ inductionHypothesis => exact inductionHypothesis.commit
  | rollback _ inductionHypothesis => exact inductionHypothesis.rollback

end Graph

end DeltaGraph
