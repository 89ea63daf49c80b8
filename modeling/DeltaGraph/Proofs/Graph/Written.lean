import DeltaGraph.Proofs.Graph.Continuation
import DeltaGraph.Proofs.Graph.Links

/-!
# What steps write

The values that accepted steps give for an edge are set one after another on
those that the edge has, whatever happens to the edge in between: inside a
batch an edge that is removed and added again is the same edge.  Only the end of
a batch makes it forget its values.  So a batch and its two halves, committed
one after the other, agree on the vertices and on the edges that are there, and
on the values of the edges that are there between the halves.
-/

namespace DeltaGraph

/-- The values that a step gives for the edge at a link. -/
def BatchStep.valuesFor (link : Link) : BatchStep → List (PropertyId × Value)
  | putVertex .. => []
  | addEdge other values => if other = link then values else []
  | removeEdge _ => []

/-- The values that steps give for the edge at a link, one after another. -/
def BatchStep.valuesForAll (link : Link) (steps : List BatchStep) :
    List (PropertyId × Value) :=
  steps.flatMap (valuesFor link)

theorem Properties.setAll_append (properties : Properties)
    (values more : List (PropertyId × Value)) :
    properties.setAll (values ++ more) =
      (properties.setAll values).setAll more :=
  List.foldl_append

namespace Graph

/-! ## Values of edges -/

/-- The values of the edge at a link, and none if there is no edge. -/
def propertiesAt (graph : Graph) (link : Link) : Properties :=
  ((graph.edges[link]?).map Edge.properties).getD ∅

theorem propertiesAt_congr {graph other : Graph} {link : Link}
    (same : graph.edges[link]? = other.edges[link]?) :
    graph.propertiesAt link = other.propertiesAt link := by
  rw [propertiesAt, propertiesAt, same]

/-- Writing an edge adds the written values to its properties and to no
others. -/
theorem propertiesAt_writeEdge (graph : Graph) (link other : Link)
    (values : List (PropertyId × Value)) :
    (graph.writeEdge link values).2.propertiesAt other =
      (graph.propertiesAt other).setAll
        (if link = other then values else []) := by
  by_cases same : link = other
  · subst same
    rw [propertiesAt, propertiesAt, getElem?_writeEdge, if_pos rfl, if_pos rfl]
    cases found : graph.edges[link]? <;> simp [addedEdge, found]
  · rw [if_neg same]
    exact propertiesAt_congr (by rw [getElem?_writeEdge, if_neg same])

theorem propertiesAt_removeEdge? {graph next : Graph} {link : Link}
    (removal : graph.removeEdge? link = some next) (other : Link) :
    next.propertiesAt other = graph.propertiesAt other := by
  obtain ⟨edge, history, found, _, rfl⟩ := removeEdge?_eq_some removal
  by_cases same : link = other
  · subst same
    simp [propertiesAt, found]
  · exact propertiesAt_congr (by simp [Std.ExtTreeMap.getElem?_insert, same])

/-- An accepted step sets the values that it gives. -/
theorem propertiesAt_attempt {graph next : Graph} {step : BatchStep}
    (taken : graph.attempt step = .ok next) (link : Link) :
    next.propertiesAt link =
      (graph.propertiesAt link).setAll (step.valuesFor link) := by
  cases step with
  | putVertex vertex type values =>
      rw [BatchStep.valuesFor]
      exact propertiesAt_congr (by rw [edges_putVertex taken])
  | addEdge added values =>
      rw [eq_of_attempt_addEdge taken, propertiesAt_writeEdge,
        BatchStep.valuesFor]
      exact congrArg (Properties.setAll · _) (propertiesAt_congr (by simp))
  | removeEdge removed =>
      cases taken
      cases removal : graph.removeEdge? removed with
      | none => rfl
      | some next => exact propertiesAt_removeEdge? removal link

/-- Accepted steps set the values that they give, one after another. -/
theorem propertiesAt_stageAll {graph : Graph} {steps : List BatchStep}
    (accepted : graph.Accepts steps) (link : Link) :
    (graph.stageAll steps).propertiesAt link =
      (graph.propertiesAt link).setAll (BatchStep.valuesForAll link steps) := by
  induction steps generalizing graph with
  | nil => rfl
  | cons step rest inductionHypothesis =>
      obtain ⟨⟨next, taken⟩, acceptedRest⟩ := accepted
      have later := inductionHypothesis acceptedRest
      rw [stage_of_attempt taken, propertiesAt_attempt taken] at later
      rw [BatchStep.valuesForAll, List.flatMap_cons, Properties.setAll_append,
        stageAll, List.foldl_cons, stage_of_attempt taken]
      exact later

/-- A commit keeps the values of the edges that it keeps. -/
theorem properties_commit (graph : Graph) (link : Link) :
    (graph.commit.2.edges[link]?).map Edge.properties =
      if link ∈ graph.linksIn .merged then some (graph.propertiesAt link)
        else none := by
  have kept : graph.commit.2.edges[link]? = graph.survivor? .merged link :=
    getElem?_settle graph .merged link
  simp only [kept, survivor?, mem_linksIn, history?, propertiesAt]
  cases graph.edges[link]? with
  | none => rfl
  | some edge =>
      cases shown : edge.history.visible .merged <;> simp [Option.filter, shown]

/-- A commit keeps the properties of the links that stay and forgets those of
the others. -/
theorem propertiesAt_commit (graph : Graph) (link : Link) :
    graph.commit.2.propertiesAt link =
      if link ∈ graph.linksIn .merged then graph.propertiesAt link else ∅ := by
  rw [propertiesAt, properties_commit]
  split <;> rfl

end Graph

/-! ## Vertices -/

/-- Two vertices with the same type and with values alike. -/
structure Vertex.Alike (left right : Vertex) : Prop where
  type : left.type = right.type
  properties : left.properties.Alike right.properties

theorem Vertex.Alike.refl (vertex : Vertex) : vertex.Alike vertex :=
  ⟨rfl, .refl vertex.properties⟩

/-- Setting the same values keeps properties alike. -/
theorem Properties.Alike.setAll
    {left right : Properties}
    (alike : left.Alike right)
    (values : List (PropertyId × Value)) :
    (left.setAll values).Alike (right.setAll values) := by
  induction values generalizing left right with
  | nil => exact alike
  | cons first rest inductionHypothesis =>
      refine inductionHypothesis fun property => ?_
      rw [Std.ExtTreeMap.getElem?_insert, Std.ExtTreeMap.getElem?_insert]
      split
      · exact .some (.refl first.2)
      · exact alike property

namespace Graph

/-- A batch is staged in both graphs, in the second one with more vertices
committed.  The graphs have the same vertices, which are alike. -/
structure SharesVertices (graph other : Graph) : Prop where
  vertices (vertex : VertexId) :
    Option.Rel Vertex.Alike graph.vertices[vertex]? other.vertices[vertex]?
  created {vertex : VertexId} (new : vertex ∈ other.created) :
    vertex ∈ graph.created

namespace SharesVertices

variable {graph other : Graph}

theorem mem_iff (shares : graph.SharesVertices other) {vertex : VertexId} :
    vertex ∈ graph.vertices ↔ vertex ∈ other.vertices := by
  rw [Std.ExtTreeMap.mem_iff_isSome_getElem?,
    Std.ExtTreeMap.mem_iff_isSome_getElem?]
  have related := shares.vertices vertex
  generalize graph.vertices[vertex]? = stored at related ⊢
  generalize other.vertices[vertex]? = counterpart at related ⊢
  cases related <;> rfl

theorem of_eq
    {next otherNext : Graph}
    (shares : graph.SharesVertices other)
    (vertices : next.vertices = graph.vertices)
    (created : next.created = graph.created)
    (otherVertices : otherNext.vertices = other.vertices)
    (otherCreated : otherNext.created = other.created) :
    next.SharesVertices otherNext where
  vertices vertex := by
    rw [vertices, otherVertices]
    exact shares.vertices vertex
  created new := by
    rw [created]
    exact shares.created (otherCreated ▸ new)

/-- Both graphs write a vertex. -/
theorem writeVertex (shares : graph.SharesVertices other) (vertex : VertexId)
    (type : Option TypeId) (values : List (PropertyId × Value)) :
    (graph.writeVertex vertex type values).SharesVertices
      (other.writeVertex vertex type values) where
  vertices another := by
    simp only [Graph.writeVertex, Std.ExtTreeMap.getElem?_insert]
    split
    · have stored : ((graph.vertices[vertex]?).getD {}).Alike
          ((other.vertices[vertex]?).getD {}) := by
        have related := shares.vertices vertex
        generalize graph.vertices[vertex]? = stored at related ⊢
        generalize other.vertices[vertex]? = counterpart at related ⊢
        cases related with
        | none => exact .refl _
        | some alike => exact alike
      exact .some
        ⟨congrArg type.getD stored.type, stored.properties.setAll values⟩
    · exact shares.vertices another
  created {another} new := by
    simp only [Graph.writeVertex, Std.ExtTreeSet.mem_insert] at new ⊢
    exact new.imp_right shares.created

/-- Graphs that share their vertices do so when both make sure of a vertex. -/
theorem ensureVertex (shares : graph.SharesVertices other) (vertex : VertexId) :
    (graph.ensureVertex vertex).SharesVertices (other.ensureVertex vertex) := by
  unfold Graph.ensureVertex
  have known :
      graph.vertices.contains vertex = other.vertices.contains vertex := by
    rw [Bool.eq_iff_iff, Std.ExtTreeMap.contains_iff_mem,
      Std.ExtTreeMap.contains_iff_mem]
    exact shares.mem_iff
  rw [known]
  split
  · exact shares
  · exact shares.writeVertex vertex none []

/-- A vertex that is committed in the first graph is committed in the second. -/
theorem isCommittedVertex
    (shares : graph.SharesVertices other)
    {vertex : VertexId}
    (committed : graph.isCommittedVertex vertex = true) :
    other.isCommittedVertex vertex = true := by
  simp only [Graph.isCommittedVertex, Bool.and_eq_true, Bool.not_eq_true',
    Std.ExtTreeMap.contains_iff_mem, ←
      Bool.not_eq_true, Std.ExtTreeSet.contains_iff_mem]
    at committed ⊢
  exact ⟨shares.mem_iff.mp committed.1, mt shares.created committed.2⟩

/-- What is written to a vertex of the first graph agrees with what is committed
in the second. -/
theorem writeCommitted
    (shares : graph.SharesVertices other)
    {vertex : VertexId}
    {type : Option TypeId}
    {values : List (PropertyId × Value)}
    (known : vertex ∈ other.vertices)
    (agrees :
      (other.vertices[vertex]?).bind (vertexConflict? vertex · type values) =
        none) :
    (graph.writeVertex vertex type values).SharesVertices other where
  vertices another := by
    simp only [Graph.writeVertex, Std.ExtTreeMap.getElem?_insert]
    split
    · rename_i same
      rw [Std.LawfulEqOrd.compare_eq_iff_eq] at same
      subst same
      have related := shares.vertices vertex
      obtain ⟨stored, found⟩ := Option.isSome_iff_exists.mp
        (Std.ExtTreeMap.mem_iff_isSome_getElem?.mp known)
      rw [found] at related agrees ⊢
      rw [Option.bind_some, vertexConflict?] at agrees
      generalize graph.vertices[vertex]? = counterpart at related ⊢
      cases related with
      | some alike =>
          split at agrees
          · cases agrees
          · rename_i sameType
            refine .some ⟨?_, ?_⟩
            · cases type with
              | none => exact alike.type
              | some given => simpa [Option.filter] using sameType
            · have unchanged :=
                Properties.alike_setAll (Option.map_eq_none_iff.mp agrees)
              exact (alike.properties.setAll values).trans unchanged
    · exact shares.vertices another
  created new := by
    simp only [Graph.writeVertex, Std.ExtTreeSet.mem_insert]
    exact .inr (shares.created new)

/-- Both graphs accept a step that makes a vertex known. -/
theorem putVertex
    {next otherNext : Graph}
    (shares : graph.SharesVertices other)
    {vertex : VertexId}
    {type : Option TypeId}
    {values : List (PropertyId × Value)}
    (taken : graph.putVertex vertex type values = .ok next)
    (otherTaken : other.putVertex vertex type values = .ok otherNext) :
    next.SharesVertices otherNext := by
  obtain ⟨committed, _, rfl⟩ | ⟨_, rfl⟩ := putVertex_cases taken
  · obtain ⟨_, _, rfl⟩ | ⟨notCommitted, _⟩ := putVertex_cases otherTaken
    · exact shares
    · -- A vertex that one graph has committed is committed in the other.
      rw [shares.isCommittedVertex committed] at notCommitted
      cases notCommitted
  · obtain ⟨otherCommitted, agrees, rfl⟩ | ⟨_, rfl⟩ :=
      putVertex_cases otherTaken
    · have known : vertex ∈ otherNext.vertices := by
        simp only [Graph.isCommittedVertex, Bool.and_eq_true] at otherCommitted
        exact Std.ExtTreeMap.contains_iff_mem.mp otherCommitted.1
      exact shares.writeCommitted known agrees
    · exact shares.writeVertex vertex type values

theorem removeEdge? (shares : graph.SharesVertices other) (link : Link) :
    ((graph.removeEdge? link).getD graph).SharesVertices
      ((other.removeEdge? link).getD other) := by
  have keeps (graph : Graph) :
      ((graph.removeEdge? link).getD graph).vertices = graph.vertices ∧
        ((graph.removeEdge? link).getD graph).created = graph.created := by
    cases removal : graph.removeEdge? link with
    | none => exact ⟨rfl, rfl⟩
    | some next =>
        obtain ⟨edge, history, _, _, rfl⟩ := removeEdge?_eq_some removal
        exact ⟨rfl, rfl⟩
  exact shares.of_eq (keeps graph).1 (keeps graph).2 (keeps other).1
    (keeps other).2

/-- Both graphs accept a step. -/
theorem attempt
    {next otherNext : Graph}
    (shares : graph.SharesVertices other)
    {step : BatchStep}
    (taken : graph.attempt step = .ok next)
    (otherTaken : other.attempt step = .ok otherNext) :
    next.SharesVertices otherNext := by
  cases step with
  | putVertex vertex type values => exact shares.putVertex taken otherTaken
  | addEdge link values =>
      rw [eq_of_attempt_addEdge taken, eq_of_attempt_addEdge otherTaken]
      exact ((shares.ensureVertex link.source).ensureVertex link.target).of_eq
        (writeEdge_vertices _ _ _) (writeEdge_created _ _ _)
        (writeEdge_vertices _ _ _)
        (writeEdge_created _ _ _)
  | removeEdge link =>
      cases taken
      cases otherTaken
      exact shares.removeEdge? link

/-- Both graphs accept all steps. -/
theorem stageAll (shares : graph.SharesVertices other) {steps : List BatchStep}
    (accepted : graph.Accepts steps) (otherAccepted : other.Accepts steps) :
    (graph.stageAll steps).SharesVertices (other.stageAll steps) := by
  induction steps generalizing graph other with
  | nil => exact shares
  | cons step rest inductionHypothesis =>
      obtain ⟨⟨next, taken⟩, acceptedRest⟩ := accepted
      obtain ⟨⟨otherNext, otherTaken⟩, otherAcceptedRest⟩ := otherAccepted
      have stepped := shares.attempt taken otherTaken
      rw [← stage_of_attempt taken, ← stage_of_attempt otherTaken] at stepped
      exact inductionHypothesis stepped acceptedRest otherAcceptedRest

end SharesVertices

/-! ## A batch in two halves -/

/-- What a batch makes of a graph, compared with what its two halves make of it
one after the other.  The values of an edge are the same unless the edge is
there before the second half, or is added in the first half, but is gone between
the halves. -/
structure SplitsAlike
    (start middle whole split : Graph)
    (steps more : List BatchStep) :
    Prop where
  vertices (vertex : VertexId) :
    Option.Rel Vertex.Alike whole.vertices[vertex]? split.vertices[vertex]?
  links : whole.linksIn .permanent = split.linksIn .permanent
  properties {link : Link} (kept : link ∈ middle.linksIn .permanent ∨
      link ∉ start.linksIn .permanent ∧
        .insert link ∉ steps.filterMap BatchStep.linkChange?) :
    (whole.edges[link]?).map Edge.properties =
      (split.edges[link]?).map Edge.properties
  /-- An edge that is gone between the halves keeps its values in a batch
  only. -/
  replaced {link : Link} (present : link ∈ whole.linksIn .permanent)
      (gone : link ∉ middle.linksIn .permanent) :
    (whole.edges[link]?).map Edge.properties =
      some (((start.propertiesAt link).setAll
        (BatchStep.valuesForAll link steps)).setAll
        (BatchStep.valuesForAll link more)) ∧
      (split.edges[link]?).map Edge.properties =
        some (Properties.setAll ∅ (BatchStep.valuesForAll link more))

/-- With nothing pending, an edge that is not committed has no values. -/
theorem Sound.propertiesAt_of_quiet
    {graph : Graph}
    (sound : graph.Sound)
    (quiet : graph.isPending = false)
    {link : Link}
    (missing : link ∉ graph.linksIn .permanent) :
    graph.propertiesAt link = ∅ := by
  rw [mem_linksIn, history?] at missing
  cases found : graph.edges[link]? with
  | none => rw [propertiesAt, found]; rfl
  | some edge =>
      have plain : edge.history = .committed :=
        sound.untouched found (by simp [isPending_eq_false_iff.mp quiet])
      rw [found, Option.map_some, Option.any_some, plain] at missing
      exact absurd rfl missing

/-- The values of a link that no step adds are none. -/
theorem valuesForAll_eq_nil {link : Link} {steps : List BatchStep}
    (missing : .insert link ∉ steps.filterMap BatchStep.linkChange?) :
    BatchStep.valuesForAll link steps = [] := by
  rw [BatchStep.valuesForAll, List.flatMap_eq_nil_iff]
  intro step member
  cases step with
  | putVertex vertex type values => rfl
  | addEdge other values =>
      rw [BatchStep.valuesFor, if_neg]
      rintro rfl
      exact missing (List.mem_filterMap.mpr ⟨_, member, rfl⟩)
  | removeEdge other => rfl

/-- A batch in one piece and the same batch cut in two leave the same vertices,
links and properties, but for the properties of an edge that is gone between the
halves. -/
theorem Sound.splitsAlike {start : Graph} (sound : start.Sound)
    (quiet : start.isPending = false) {steps more : List BatchStep}
    (together : start.Accepts (steps ++ more))
    (apart : (start.stageAll steps).commit.2.Accepts more) :
    start.SplitsAlike (start.stageAll steps).commit.2
      (start.stageAll (steps ++ more)).commit.2
      ((start.stageAll steps).commit.2.stageAll more).commit.2 steps more := by
  obtain ⟨accepted, acceptedMore⟩ := accepts_append.mp together
  have middleLinks : (start.stageAll steps).commit.2.linksIn .merged =
      (start.stageAll steps).linksIn .merged := by
    rw [← linksIn_commit (start.stageAll steps)]
    exact ((sound.stageAll steps).commit.stagesAsSet rfl []).merged
  have links : (start.stageAll (steps ++ more)).linksIn .merged =
      ((start.stageAll steps).commit.2.stageAll more).linksIn .merged := by
    rw [stageAll_append, linksIn_merged_stageAll acceptedMore,
      linksIn_merged_stageAll apart, middleLinks]
  -- The values in a batch, and those in its second half if the first is
  -- committed before.
  have wholeValues (link : Link) :
      (start.stageAll (steps ++ more)).propertiesAt link =
        ((start.propertiesAt link).setAll
          (BatchStep.valuesForAll link steps)).setAll
          (BatchStep.valuesForAll link more) := by
    rw [propertiesAt_stageAll together, BatchStep.valuesForAll,
      List.flatMap_append, Properties.setAll_append]
    rfl
  have splitValues (link : Link) :
      ((start.stageAll steps).commit.2.stageAll more).propertiesAt link =
        (if link ∈ (start.stageAll steps).linksIn .merged
          then
            (start.propertiesAt link).setAll (BatchStep.valuesForAll link steps)
          else ∅).setAll (BatchStep.valuesForAll link more) := by
    rw [propertiesAt_stageAll apart, propertiesAt_commit,
      propertiesAt_stageAll accepted]
  constructor
  case vertices =>
    have fresh : (start.stageAll steps).commit.2.created = ∅ := rfl
    have shares :
        (start.stageAll steps).SharesVertices (start.stageAll steps).commit.2 :=
      ⟨fun _ => optionRel_refl Vertex.Alike.refl _,
        fun new => by simp [fresh] at new⟩
    have shared := shares.stageAll acceptedMore apart
    rw [← stageAll_append] at shared
    exact shared.vertices
  case links => rw [linksIn_commit, linksIn_commit, links]
  case properties =>
    intro link kept
    rw [linksIn_commit] at kept
    rw [properties_commit, properties_commit, links, wholeValues, splitValues]
    rcases kept with there | ⟨missing, unadded⟩
    · rw [if_pos there]
    · have nothing : Properties.setAll ∅ [] = ∅ := rfl
      rw [sound.propertiesAt_of_quiet quiet missing,
        valuesForAll_eq_nil unadded, nothing, ite_self]
  case replaced =>
    intro link present gone
    rw [linksIn_commit] at present gone
    rw [properties_commit, properties_commit, if_pos present,
      if_pos (links ▸ present), wholeValues, splitValues, if_neg gone]
    exact ⟨rfl, rfl⟩

end Graph

end DeltaGraph
