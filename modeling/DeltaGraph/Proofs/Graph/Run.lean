import DeltaGraph.Graph.Batch

/-!
# Runs of a graph

A batch is staged step by step, and ends with a commit or a rollback.  The
graphs that such runs lead to from the empty graph are the reachable ones.
-/

namespace DeltaGraph

/-- One step of staging a batch. -/
inductive BatchStep
  | putVertex (vertex : VertexId) (type : Option TypeId)
      (values : List (PropertyId × Value))
  | addEdge (link : Link) (values : List (PropertyId × Value))
  | removeEdge (link : Link)

namespace Graph

/-- The graph after a step.  A step that fails, or that finds no edge to
remove, leaves the graph as it is. -/
def stage (graph : Graph) : BatchStep → Graph
  | .putVertex vertex type values =>
      (graph.putVertex vertex type values).toOption.getD graph
  | .addEdge link values =>
      ((graph.addEdge link values).toOption.map Prod.snd).getD graph
  | .removeEdge link => (graph.removeEdge? link).getD graph

/-- The graph after the steps of a batch. -/
def stageAll (graph : Graph) (steps : List BatchStep) : Graph :=
  steps.foldl stage graph

/-- The edge that a step touches: the edge that it adds or removes, if it
succeeds. -/
def touched? (graph : Graph) : BatchStep → Option EdgeId
  | .putVertex .. => none
  | .addEdge link values => (graph.addEdge link values).toOption.map Prod.fst
  | .removeEdge link =>
      (graph.removeEdge? link).bind fun _ => (graph.edges[link]?).map Edge.id

/-- The edges that the steps of a batch touch, one after another. -/
def touchedAll (graph : Graph) : List BatchStep → List EdgeId
  | [] => []
  | step :: rest =>
      (graph.touched? step).toList ++ (graph.stage step).touchedAll rest

/-- The graphs that runs lead to. -/
inductive Reachable : Graph → Prop
  | empty : Reachable .empty
  | stage {graph : Graph} (step : BatchStep) : Reachable graph →
      Reachable (graph.stage step)
  | commit {graph : Graph} : Reachable graph → Reachable graph.commit.2
  | rollback {graph : Graph} : Reachable graph → Reachable graph.rollback.2

theorem Reachable.stageAll {graph : Graph} (reachable : graph.Reachable)
    (steps : List BatchStep) : (graph.stageAll steps).Reachable := by
  induction steps generalizing graph with
  | nil => exact reachable
  | cons step rest inductionHypothesis =>
      exact inductionHypothesis (reachable.stage step)

/-- The graphs at the start of a batch: the empty one, and those that a commit
or a rollback leads to. -/
inductive Settled : Graph → Prop
  | empty : Settled .empty
  | commit {graph : Graph} : Reachable graph → Settled graph.commit.2
  | rollback {graph : Graph} : Reachable graph → Settled graph.rollback.2

theorem Settled.reachable
    {graph : Graph}
    (settled : graph.Settled) : graph.Reachable := by
  cases settled with
  | empty => exact .empty
  | commit reachable => exact .commit reachable
  | rollback reachable => exact .rollback reachable

/-- What a step can do to a graph. -/
theorem stage_cases (graph : Graph) (step : BatchStep) :
    graph.stage step = graph ∨
    (∃ vertex type values, graph.isCommittedVertex vertex = false ∧
      graph.stage step = graph.writeVertex vertex type values) ∨
    (∃ link values, graph.edgeConflict? link values = none ∧
      graph.stage step =
        (((graph.ensureVertex link.source).ensureVertex link.target).writeEdge
          link values).2) ∨
    (∃ link, graph.removeEdge? link = some (graph.stage step)) := by
  cases step with
  | putVertex vertex type values =>
      simp only [stage, putVertex]
      split
      · split <;> exact .inl rfl
      · rename_i notCommitted
        exact .inr
          (.inl ⟨vertex, type, values, by simpa using notCommitted, rfl⟩)
  | addEdge link values =>
      simp only [stage, addEdge]
      split
      · exact .inl rfl
      · rename_i agreeing
        exact .inr (.inr (.inl ⟨link, values, agreeing, rfl⟩))
  | removeEdge link =>
      simp only [stage]
      cases removal : graph.removeEdge? link with
      | none => exact .inl rfl
      | some next => exact .inr (.inr (.inr ⟨link, removal⟩))

end Graph

end DeltaGraph
