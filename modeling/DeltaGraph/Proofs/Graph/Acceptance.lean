import DeltaGraph.Proofs.Graph.Attempt
import DeltaGraph.Proofs.Graph.Rollback

/-!
# What decides whether steps are accepted

Whether a graph refuses a step depends on what is committed only, and on no step
that was staged before.  So steps are all accepted exactly if each of them would
be accepted at the start, in whatever order they are taken.
-/

namespace DeltaGraph

namespace Graph

/-- A step would give something in a committed graph another type or value. -/
inductive Resists (committed : Graph) : BatchStep → Prop
  | type {vertex : VertexId} {stored : Vertex} {given : TypeId}
      {values : List (PropertyId × Value)}
      (known : committed.vertices[vertex]? = some stored)
      (different : given ≠ stored.type) :
        Resists committed (.putVertex vertex (some given) values)
  | vertexValue {vertex : VertexId} {stored : Vertex} {type : Option TypeId}
      {values : List (PropertyId × Value)} {property : PropertyId}
      (known : committed.vertices[vertex]? = some stored)
      (differs : stored.properties.conflict? values = some property) :
      Resists committed (.putVertex vertex type values)
  | edgeValue {link : Link} {stored : Edge} {values : List (PropertyId × Value)}
      {property : PropertyId} (known : committed.edges[link]? = some stored)
      (differs : stored.properties.conflict? values = some property) :
      Resists committed (.addEdge link values)

variable {graph other : Graph} {step : BatchStep}

/-- Graphs alike resist the same steps. -/
theorem Resists.alike
    (resists : graph.Resists step)
    (alike : graph.Alike other) :
    other.Resists step := by
  cases resists with
  | type known different =>
      rw [alike.vertices] at known
      exact .type known different
  | vertexValue known differs =>
      rw [alike.vertices] at known
      exact .vertexValue known differs
  | @edgeValue link stored values property known differs =>
      have related := alike.edges link
      rw [known] at related
      cases found : other.edges[link]? with
      | none =>
          rw [found] at related
          cases related
      | some edge =>
          rw [found] at related
          cases related with
          | some same =>
              exact .edgeValue found
                (same.properties.conflict?_eq values ▸ differs)

/-! ## Reasons to refuse a step -/

theorem vertices_rollback_of_committed {vertex : VertexId}
    (committed : graph.isCommittedVertex vertex = true) :
    graph.rollback.2.vertices[vertex]? = graph.vertices[vertex]? := by
  have old : vertex ∉ graph.created := by
    rintro new
    simp [isCommittedVertex, Std.ExtTreeSet.contains_iff_mem.mpr new]
      at committed
  rw [getElem?_vertices_rollback, if_neg old]

theorem committed_of_vertices_rollback {vertex : VertexId} {stored : Vertex}
    (known : graph.rollback.2.vertices[vertex]? = some stored) :
    graph.isCommittedVertex vertex = true ∧
      graph.vertices[vertex]? = some stored := by
  rw [getElem?_vertices_rollback] at known
  split at known
  · cases known
  · rename_i old
    have present : vertex ∈ graph.vertices := by
      rw [Std.ExtTreeMap.mem_iff_isSome_getElem?, known]
      rfl
    have fresh : graph.created.contains vertex = false :=
      Bool.eq_false_iff.mpr (mt Std.ExtTreeSet.contains_iff_mem.mp old)
    exact ⟨by simp [isCommittedVertex, present, fresh], known⟩

/-- A step that conflicts is one that the committed graph resists. -/
theorem Conflicts.resists
    {argument : InvalidArgument}
    (conflicts : graph.Conflicts step argument) :
    graph.rollback.2.Resists step := by
  cases conflicts with
  | retypedVertex committed known different =>
      exact .type ((vertices_rollback_of_committed committed).trans known)
        different
  | changedVertex committed known differs =>
      exact .vertexValue
        ((vertices_rollback_of_committed committed).trans known) differs
  | changedEdge known committed differs =>
      have survives := survivor?_eq_some_iff.mpr ⟨_, known, committed, rfl⟩
      exact .edgeValue ((getElem?_edges_rollback graph _).trans survives)
        differs

theorem refused_of_vertexConflict?
    {vertex : VertexId}
    {stored : Vertex}
    {type : Option TypeId}
    {values : List (PropertyId × Value)}
    {argument : InvalidArgument}
    (known : graph.rollback.2.vertices[vertex]? = some stored)
    (conflict : vertexConflict? vertex stored type values = some argument) :
    graph.attempt (.putVertex vertex type values) =
      .error (.invalid argument) := by
  obtain ⟨committed, present⟩ := committed_of_vertices_rollback known
  simp only [attempt, putVertex, committed, present, Option.bind_some, conflict,
    if_true]

/-- A step that the committed graph resists is refused. -/
theorem Resists.refused (resists : graph.rollback.2.Resists step) :
    ∃ error, graph.attempt step = .error error := by
  cases resists with
  | @type vertex stored given values known different =>
      have retyped : vertexConflict? vertex stored (some given) values =
          some (.retypedVertex vertex stored.type given) := by
        simp [vertexConflict?, Option.filter, different]
      exact ⟨_, refused_of_vertexConflict? known retyped⟩
  | @vertexValue vertex stored type values property known differs =>
      -- A step that gives another type too is refused for the type.
      have conflict :
          ∃ argument,
            vertexConflict? vertex stored type values = some argument := by
        unfold vertexConflict?
        split
        · exact ⟨_, rfl⟩
        · exact ⟨_, by rw [differs, Option.map_some]⟩
      obtain ⟨argument, conflict⟩ := conflict
      exact ⟨_, refused_of_vertexConflict? known conflict⟩
  | @edgeValue link stored values property known differs =>
      rw [getElem?_edges_rollback] at known
      obtain ⟨edge, present, shown, rfl⟩ := survivor?_eq_some_iff.mp known
      refine ⟨.invalid (.changedEdge link.source link.target property), ?_⟩
      have conflict : graph.edgeConflict? link values = some property := by
        simp only [edgeConflict?, present, Option.bind_eq_bind,
          Option.bind_some, shown, if_true]
        exact differs
      simp [attempt, addEdge, conflict, Except.map]

/-- Steps are refused for nothing but what is committed. -/
theorem refused_iff_resists :
    (∃ error, graph.attempt step = .error error) ↔
      graph.rollback.2.Resists step := by
  refine ⟨?_, Resists.refused⟩
  rintro ⟨error, refused⟩
  obtain ⟨argument, _, conflicts⟩ := conflicts_of_refused refused
  exact conflicts.resists

/-- A staged step makes no difference to what the committed graph resists. -/
theorem resists_stage_iff (before : BatchStep) :
    (graph.stage before).rollback.2.Resists step ↔
      graph.rollback.2.Resists step :=
  have alike := (graph.continues_stage before).alike_rollback
  ⟨fun resists => resists.alike alike, fun resists => resists.alike alike.symm⟩

/-- Steps are accepted one after another if the committed graph resists none of
them. -/
theorem accepts_iff_forall_not_resists {steps : List BatchStep} :
    graph.Accepts steps ↔ ∀ step ∈ steps, ¬ graph.rollback.2.Resists step := by
  induction steps generalizing graph with
  | nil => simp [Accepts]
  | cons first rest inductionHypothesis =>
      have here : (∃ next, graph.attempt first = .ok next) ↔
          ¬ graph.rollback.2.Resists first := by
        rw [← refused_iff_resists]
        cases graph.attempt first <;> simp
      rw [Accepts, here, inductionHypothesis, List.forall_mem_cons]
      simp only [resists_stage_iff]

end Graph

end DeltaGraph
