import DeltaGraph.Proofs.Graph.Run

/-!
# Steps that a graph refuses

A step of a batch may be refused.  Only what was committed before the batch is a
reason to refuse one: a vertex or an edge that would get another type or value.
Steps are taken one after another until one is refused.
-/

namespace DeltaGraph

namespace Graph

/-- The graph after a step, unless the graph refuses it. -/
def attempt (graph : Graph) : BatchStep → Except Error Graph
  | .putVertex vertex type values => graph.putVertex vertex type values
  | .addEdge link values => (graph.addEdge link values).map Prod.snd
  | .removeEdge link => .ok ((graph.removeEdge? link).getD graph)

/-- A refused step leaves the graph as it is. -/
theorem stage_eq_attempt (graph : Graph) (step : BatchStep) :
    graph.stage step = (graph.attempt step).toOption.getD graph := by
  cases step with
  | putVertex vertex type values => rfl
  | addEdge link values =>
      rw [stage, attempt]
      cases graph.addEdge link values <;> rfl
  | removeEdge link => rfl

theorem stage_of_attempt {graph next : Graph} {step : BatchStep}
    (taken : graph.attempt step = .ok next) : graph.stage step = next := by
  rw [stage_eq_attempt, taken]
  rfl

theorem stage_of_refused
    {graph : Graph}
    {step : BatchStep}
    {error : Error}
    (refused : graph.attempt step = .error error) :
    graph.stage step = graph := by
  rw [stage_eq_attempt, refused]
  rfl

/-- A step that makes a vertex known keeps a committed vertex as it is, and
writes any other. -/
theorem putVertex_cases
    {graph next : Graph}
    {vertex : VertexId}
    {type : Option TypeId}
    {values : List (PropertyId × Value)}
    (taken : graph.putVertex vertex type values = .ok next) :
    (graph.isCommittedVertex vertex = true ∧
        (graph.vertices[vertex]?).bind (vertexConflict? vertex · type values) =
          none ∧
        next = graph) ∨
      (graph.isCommittedVertex vertex = false ∧
        next = graph.writeVertex vertex type values) := by
  unfold putVertex at taken
  split at taken
  · rename_i committed
    split at taken
    · cases taken
    · rename_i agrees
      cases taken
      exact .inl ⟨committed, agrees, rfl⟩
  · rename_i notCommitted
    cases taken
    exact .inr ⟨by simpa using notCommitted, rfl⟩

/-- An accepted edge is written, with ends that are known. -/
theorem eq_of_attempt_addEdge
    {graph next : Graph}
    {link : Link}
    {values : List (PropertyId × Value)}
    (taken : graph.attempt (.addEdge link values) = .ok next) :
    next =
      (((graph.ensureVertex link.source).ensureVertex link.target).writeEdge
        link values).2 := by
  simp only [attempt, addEdge] at taken
  split at taken
  · cases taken
  · cases taken
    rfl

/-- A step would give something committed another type or value. -/
inductive Conflicts (graph : Graph) : BatchStep → InvalidArgument → Prop
  | retypedVertex {vertex : VertexId} {stored : Vertex} {given : TypeId}
      {values : List (PropertyId × Value)}
      (committed : graph.isCommittedVertex vertex = true)
      (known : graph.vertices[vertex]? = some stored)
      (different : given ≠ stored.type) :
      Conflicts graph (.putVertex vertex (some given) values)
        (.retypedVertex vertex stored.type given)
  | changedVertex {vertex : VertexId} {stored : Vertex} {type : Option TypeId}
      {values : List (PropertyId × Value)} {property : PropertyId}
      (committed : graph.isCommittedVertex vertex = true)
      (known : graph.vertices[vertex]? = some stored)
      (differs : stored.properties.conflict? values = some property) :
      Conflicts graph (.putVertex vertex type values)
        (.changedVertex vertex property)
  | changedEdge {link : Link} {edge : Edge} {values : List (PropertyId × Value)}
      {property : PropertyId} (known : graph.edges[link]? = some edge)
      (committed : edge.history.visible .permanent = true)
      (differs : edge.properties.conflict? values = some property) :
      Conflicts graph (.addEdge link values)
        (.changedEdge link.source link.target property)

theorem conflicts_of_vertexConflict?
    {graph : Graph}
    {vertex : VertexId}
    {stored : Vertex}
    {type : Option TypeId}
    {values : List (PropertyId × Value)}
    {argument : InvalidArgument}
    (committed : graph.isCommittedVertex vertex = true)
    (known : graph.vertices[vertex]? = some stored)
    (conflict : vertexConflict? vertex stored type values = some argument) :
    graph.Conflicts (.putVertex vertex type values) argument := by
  unfold vertexConflict? at conflict
  split at conflict
  · rename_i given filtered
    obtain ⟨rfl, different⟩ := Option.filter_eq_some_iff.mp filtered
    cases conflict
    exact .retypedVertex committed known (by simpa using different)
  · obtain ⟨property, differs, rfl⟩ := Option.map_eq_some_iff.mp conflict
    exact .changedVertex committed known differs

/-- A graph refuses a step only for what is committed. -/
theorem conflicts_of_refused {graph : Graph} {step : BatchStep} {error : Error}
    (refused : graph.attempt step = .error error) :
    ∃ argument, error = .invalid argument ∧ graph.Conflicts step argument := by
  cases step with
  | putVertex vertex type values =>
      simp only [attempt, putVertex] at refused
      split at refused
      · rename_i committed
        split at refused
        · rename_i argument conflict
          obtain ⟨stored, known, found⟩ := Option.bind_eq_some_iff.mp conflict
          cases refused
          exact ⟨argument, rfl,
            conflicts_of_vertexConflict? committed known found⟩
        · cases refused
      · cases refused
  | addEdge link values =>
      simp only [attempt, addEdge] at refused
      split at refused
      · rename_i property conflict
        obtain ⟨edge, known, differs⟩ := Option.bind_eq_some_iff.mp conflict
        split at differs
        · rename_i committed
          cases refused
          exact ⟨_, rfl, .changedEdge known committed differs⟩
        · cases differs
      · cases refused
  | removeEdge link => cases refused

/-- None of the steps is refused when they are taken one after another. -/
def Accepts (graph : Graph) : List BatchStep → Prop
  | [] => True
  | step :: rest =>
      (∃ next, graph.attempt step = .ok next) ∧ (graph.stage step).Accepts rest

theorem stageAll_append (graph : Graph) (steps more : List BatchStep) :
    graph.stageAll (steps ++ more) = (graph.stageAll steps).stageAll more :=
  List.foldl_append

/-- Steps are accepted when the first ones are, and then the later ones on what
those left. -/
theorem accepts_append {graph : Graph} {steps more : List BatchStep} :
    graph.Accepts (steps ++ more) ↔
      graph.Accepts steps ∧ (graph.stageAll steps).Accepts more := by
  induction steps generalizing graph with
  | nil => exact (iff_of_eq (true_and _)).symm
  | cons step rest inductionHypothesis =>
      rw [List.cons_append, Accepts, Accepts, inductionHypothesis, and_assoc]
      rfl

/-- One of the steps is refused when they are taken one after another, and a
graph is reached then. -/
structure Refuses
    (graph : Graph)
    (steps : List BatchStep)
    (error : Error)
    (reached : Graph) :
    Prop where
  exists_step : ∃ before step after, steps = before ++ step :: after ∧
    graph.Accepts before ∧
    reached = graph.stageAll before ∧ reached.attempt step = .error error

/-- A refusal among the first steps refuses them all, at the same point. -/
theorem Refuses.append
    {graph reached : Graph}
    {steps : List BatchStep}
    {error : Error}
    (refuses : graph.Refuses steps error reached)
    (more : List BatchStep) :
    graph.Refuses (steps ++ more) error reached := by
  obtain ⟨before, step, after, rfl, accepted, found⟩ := refuses
  exact ⟨before, step, after ++ more, by simp, accepted, found⟩

/-- A refusal after accepted steps refuses them all. -/
theorem Refuses.after
    {graph reached : Graph}
    {steps more : List BatchStep}
    {error : Error}
    (accepted : graph.Accepts steps)
    (refuses : (graph.stageAll steps).Refuses more error reached) :
    graph.Refuses (steps ++ more) error reached := by
  obtain ⟨before, step, after, rfl, acceptedToo, rfl, refusal⟩ := refuses
  exact ⟨steps ++ before, step, after, by simp,
    accepts_append.mpr ⟨accepted, acceptedToo⟩,
    (graph.stageAll_append steps before).symm, refusal⟩

theorem Refuses.not_accepts
    {graph reached : Graph}
    {steps : List BatchStep}
    {error : Error}
    (refuses : graph.Refuses steps error reached) :
    ¬ graph.Accepts steps := by
  obtain ⟨before, step, after, rfl, _, rfl, refusal⟩ := refuses
  intro accepted
  obtain ⟨⟨next, taken⟩, _⟩ := (accepts_append.mp accepted).2
  rw [refusal] at taken
  cases taken

end Graph

end DeltaGraph
