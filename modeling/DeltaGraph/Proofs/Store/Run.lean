import DeltaGraph.Proofs.Graph.Run
import DeltaGraph.Proofs.Store.Endings

/-!
# Runs of a store

Stores are changed by the same steps as graphs.  Every run of a store goes
along a run of a graph, which the store represents all the time, and each step
touches the same edge in both.
-/

namespace DeltaGraph

namespace Store

variable {store : Store} {graph : Graph}

/-- The store after a step.  A step that fails may leave a note of a vertex. -/
def stage (store : Store) : BatchStep → Store
  | .putVertex vertex type values => (putVertex vertex type values store).2
  | .addEdge link values => (addEdge link values store).2
  | .removeEdge link => (removeEdge link store).2

/-- The store after the steps of a batch. -/
def stageAll (store : Store) (steps : List BatchStep) : Store :=
  steps.foldl stage store

/-- The edge that a step touches: the edge that it adds or removes, if it
succeeds. -/
def touched? (store : Store) : BatchStep → Option EdgeId
  | .putVertex .. => none
  | .addEdge link values => (addEdge link values store).1.toOption
  | .removeEdge link =>
      if (removeEdge link store).1 then store.ids[link]? else none

/-- The edges that the steps of a batch touch, one after another. -/
def touchedAll (store : Store) : List BatchStep → List EdgeId
  | [] => []
  | step :: rest =>
      (store.touched? step).toList ++ (store.stage step).touchedAll rest

/-- The stores that runs lead to. -/
inductive Reachable : Store → Prop
  | empty : Reachable .empty
  | stage {store : Store} (step : BatchStep) :
      Reachable store → Reachable (store.stage step)
  | commit {store : Store} : Reachable store → Reachable store.commit.2
  | rollback {store : Store} : Reachable store → Reachable store.rollback.2

theorem Reachable.stageAll (reachable : store.Reachable)
    (steps : List BatchStep) : (store.stageAll steps).Reachable := by
  induction steps generalizing store with
  | nil => exact reachable
  | cons step rest inductionHypothesis =>
      exact inductionHypothesis (reachable.stage step)

/-- The stores at the start of a batch: the empty one, and those that a commit
or a rollback leads to. -/
inductive Settled : Store → Prop
  | empty : Settled .empty
  | commit {store : Store} : Reachable store → Settled store.commit.2
  | rollback {store : Store} : Reachable store → Settled store.rollback.2

/-- Every reachable store is in the middle of a batch. -/
theorem Reachable.exists_steps (reachable : store.Reachable) :
    ∃ (start : Store) (steps : List BatchStep),
      start.Settled ∧ start.stageAll steps = store := by
  induction reachable with
  | empty => exact ⟨_, [], .empty, rfl⟩
  | stage step _ inductionHypothesis =>
      obtain ⟨start, steps, settled, rfl⟩ := inductionHypothesis
      exact ⟨start, steps ++ [step], settled, List.foldl_append⟩
  | commit reachable _ => exact ⟨_, [], .commit reachable, rfl⟩
  | rollback reachable _ => exact ⟨_, [], .rollback reachable, rfl⟩

/-! ## The graph along which a store goes -/

namespace Represents

/-- A step does the same to a store and to the graph that it represents. -/
theorem stage (represents : store.Represents graph) (sound : graph.Sound)
    (step : BatchStep) :
    store.touched? step = graph.touched? step ∧
      (store.stage step).Represents (graph.stage step) := by
  cases step with
  | putVertex vertex type values =>
      have follows := represents.putVertex vertex type values
      rw [Graph.stage, Store.stage]
      refine ⟨rfl, ?_⟩
      cases result : graph.putVertex vertex type values with
      | ok next =>
          rw [result] at follows
          exact follows.2
      | error error =>
          rw [result] at follows
          exact follows.2
  | addEdge link values =>
      have follows := represents.addEdge sound link values
      rw [Graph.stage, Store.stage, Graph.touched?, Store.touched?]
      cases result : graph.addEdge link values with
      | ok added =>
          rw [result] at follows
          rw [follows.1]
          exact ⟨rfl, follows.2⟩
      | error error =>
          rw [result] at follows
          rw [follows.1]
          exact ⟨rfl, follows.2⟩
  | removeEdge link =>
      obtain ⟨removed, later⟩ := represents.removeEdge link
      rw [Graph.stage, Store.stage, Graph.touched?, Store.touched?, removed,
        represents.holds.ids]
      refine ⟨?_, later⟩
      cases graph.removeEdge? link <;> rfl

theorem stageAll (represents : store.Represents graph) (sound : graph.Sound)
    (steps : List BatchStep) :
    store.touchedAll steps = graph.touchedAll steps ∧
      (store.stageAll steps).Represents (graph.stageAll steps) := by
  induction steps generalizing store graph with
  | nil => exact ⟨rfl, represents⟩
  | cons step rest inductionHypothesis =>
      obtain ⟨touched, next⟩ := represents.stage sound step
      obtain ⟨others, later⟩ := inductionHypothesis next (sound.stage step)
      refine ⟨?_, later⟩
      rw [touchedAll, Graph.touchedAll, touched, others]

end Represents

/-- A reachable store represents a reachable graph. -/
theorem Reachable.exists_graph (reachable : store.Reachable) :
    ∃ graph : Graph, graph.Reachable ∧ store.Represents graph := by
  induction reachable with
  | empty => exact ⟨_, .empty, .empty⟩
  | stage step _ inductionHypothesis =>
      obtain ⟨graph, reached, represents⟩ := inductionHypothesis
      exact ⟨_, reached.stage step, (represents.stage reached.sound step).2⟩
  | commit _ inductionHypothesis =>
      obtain ⟨graph, reached, represents⟩ := inductionHypothesis
      exact ⟨_, reached.commit, (represents.commit reached.sound).2⟩
  | rollback _ inductionHypothesis =>
      obtain ⟨graph, reached, represents⟩ := inductionHypothesis
      exact ⟨_, reached.rollback, (represents.rollback reached.sound).2⟩

/-- At the start of a batch, a store represents a graph at the start of a
batch. -/
theorem Settled.exists_graph (settled : store.Settled) :
    ∃ graph : Graph, graph.Settled ∧ store.Represents graph := by
  cases settled with
  | empty => exact ⟨_, .empty, .empty⟩
  | commit reachable =>
      obtain ⟨graph, reached, represents⟩ := reachable.exists_graph
      exact ⟨_, .commit reached, (represents.commit reached.sound).2⟩
  | rollback reachable =>
      obtain ⟨graph, reached, represents⟩ := reachable.exists_graph
      exact ⟨_, .rollback reached, (represents.rollback reached.sound).2⟩

/-! ## The graph that a store keeps -/

namespace Represents

theorem graph_edges (represents : store.Represents graph) :
    store.graph.edges = graph.edges := by
  refine Std.ExtTreeMap.ext_getElem? fun link => ?_
  rw [Store.graph, Std.ExtTreeMap.getElem?_filterMap', represents.holds.ids]
  cases found : graph.edges[link]? with
  | none => rfl
  | some edge =>
      have stored := represents.holds.getElem?_of_table found
      simp only [Option.map_some, Option.bind_some, stored]
      rfl

theorem graph_links (represents : store.Represents graph)
    (sound : graph.Sound) : store.graph.links = graph.links := by
  refine Std.ExtTreeMap.ext_getElem? fun id => Option.ext fun link => ?_
  rw [Store.graph, Std.ExtTreeMap.getElem?_map, sound.links_iff,
    Option.map_eq_some_iff]
  constructor
  · rintro ⟨stored, found, rfl⟩
    exact ⟨_, (represents.holds.edges id stored).mp found, rfl⟩
  · rintro ⟨edge, found, rfl⟩
    exact ⟨_, represents.holds.getElem?_of_table found, rfl⟩

theorem graph_batch (represents : store.Represents graph) :
    store.graph.batch = graph.batch := by
  refine Std.ExtTreeSet.ext_mem fun link => ?_
  simp only [Store.graph, Std.ExtTreeSet.mem_ofList, List.contains_iff_mem,
    List.mem_map, List.mem_filterMap, represents.batch]
  constructor
  · rintro ⟨stored, ⟨id, member, found⟩, rfl⟩
    exact ⟨_, (represents.holds.edges id stored).mp found, member⟩
  · rintro ⟨edge, found, member⟩
    have stored := represents.holds.getElem?_of_table found
    exact ⟨_, ⟨edge.id, member, stored⟩, rfl⟩

theorem graph_created (represents : store.Represents graph) :
    store.graph.created = graph.created := by
  refine Std.ExtTreeSet.ext_mem fun vertex => ?_
  rw [represents.created]
  simp [Store.graph, Std.ExtTreeSet.mem_ofList]

/-- The graph that a store represents is read off its tables. -/
theorem graph_eq (represents : store.Represents graph)
    (sound : graph.Sound) : store.graph = graph := by
  have vertices : store.graph.vertices = graph.vertices :=
    represents.vertices
  have freshEdge : store.graph.freshEdge = graph.freshEdge :=
    represents.freshEdge
  have edges := represents.graph_edges
  have links := represents.graph_links sound
  have batch := represents.graph_batch
  have created := represents.graph_created
  cases graph
  cases read : store.graph
  rw [read] at vertices edges links freshEdge batch created
  simp only at vertices edges links freshEdge batch created
  rw [vertices, edges, links, freshEdge, batch, created]

end Represents

/-- A reachable store represents the graph that it keeps, which is
reachable. -/
theorem Reachable.represents (reachable : store.Reachable) :
    store.graph.Reachable ∧ store.Represents store.graph := by
  obtain ⟨graph, reached, represents⟩ := reachable.exists_graph
  rw [represents.graph_eq reached.sound]
  exact ⟨reached, represents⟩

end Store

end DeltaGraph
