import DeltaGraph.Proofs.Graph.Sound
import DeltaGraph.Proofs.Value

/-!
# What a batch leaves alone

While a batch is staged, the committed edges stay in the graph with their
numbers and, up to the signs of zeros, with their values, and the vertices that
the batch did not create are as they were.
-/

namespace DeltaGraph

/-- Two edges with the same number and history and with values alike. -/
structure Edge.Alike (left right : Edge) : Prop where
  id : left.id = right.id
  history : left.history = right.history
  properties : left.properties.Alike right.properties

theorem Edge.Alike.refl (edge : Edge) : edge.Alike edge :=
  ⟨rfl, rfl, .refl edge.properties⟩

theorem Edge.Alike.symm
    {left right : Edge}
    (alike : left.Alike right) : right.Alike left :=
  ⟨alike.id.symm, alike.history.symm, alike.properties.symm⟩

theorem Edge.Alike.trans
    {left middle right : Edge}
    (first : left.Alike middle)
    (second : middle.Alike right) : left.Alike right :=
  ⟨first.id.trans second.id, first.history.trans second.history,
    first.properties.trans second.properties⟩

namespace Graph

/-- What a graph has in common with a graph in which steps were staged. -/
structure Continues (start now : Graph) : Prop where
  committed (link : Link) :
    Option.Rel Edge.Alike (now.survivor? .permanent link)
      (start.survivor? .permanent link)
  vertices {vertex : VertexId} (old : vertex ∉ now.created) :
    now.vertices[vertex]? = start.vertices[vertex]?
  created {vertex : VertexId} (new : vertex ∈ start.created) :
    vertex ∈ now.created
  unknown {vertex : VertexId} (new : vertex ∈ now.created) :
    vertex ∈ start.created ∨ start.vertices[vertex]? = none

namespace Continues

/-- A graph continues itself. -/
theorem refl (graph : Graph) : graph.Continues graph where
  committed _ := optionRel_refl Edge.Alike.refl _
  vertices _ := rfl
  created new := new
  unknown new := .inl new

/-- A graph that continues a continuation continues the first one. -/
theorem trans {start middle now : Graph} (first : start.Continues middle)
    (second : middle.Continues now) : start.Continues now where
  committed link := by
    refine optionRel_trans ?_ (second.committed link) (first.committed link)
    exact fun _ _ _ later earlier => later.trans earlier
  vertices old := by
    have middleOld := mt second.created old
    exact (second.vertices old).trans (first.vertices middleOld)
  created new := second.created (first.created new)
  unknown {vertex} new := by
    rcases second.unknown new with middleNew | missing
    · exact first.unknown middleNew
    · by_cases middleNew : vertex ∈ middle.created
      · exact first.unknown middleNew
      · exact .inr ((first.vertices middleNew).symm.trans missing)

end Continues

/-- Which edges survive a settlement depends on the edges alone. -/
theorem survivor?_congr
    (graph : Graph)
    {other : Graph}
    (same : graph.edges = other.edges)
    (version : Version)
    (link : Link) :
    graph.survivor? version link = other.survivor? version link := by
  rw [survivor?, survivor?, same]

/-- A vertex that is neither committed nor new in the batch is not there. -/
theorem unknown_of_new
    {graph : Graph}
    {vertex : VertexId}
    (notCommitted : graph.isCommittedVertex vertex = false)
    (old : vertex ∉ graph.created) :
    graph.vertices[vertex]? = none := by
  have missing : vertex ∉ graph.vertices := by
    intro known
    simp [isCommittedVertex, known, old] at notCommitted
  exact Std.ExtTreeMap.getElem?_eq_none missing

/-- Writing a vertex that is not committed continues the graph. -/
theorem continues_writeVertex
    {graph : Graph}
    {vertex : VertexId}
    (notCommitted : graph.isCommittedVertex vertex = false)
    (type : Option TypeId)
    (values : List (PropertyId × Value)) :
    graph.Continues (graph.writeVertex vertex type values) where
  committed link := by
    rw [(graph.writeVertex vertex type values).survivor?_congr rfl]
    exact optionRel_refl Edge.Alike.refl _
  vertices {other} old := by
    have different : vertex ≠ other := by
      rintro rfl
      simp [writeVertex] at old
    simp [writeVertex, Std.ExtTreeMap.getElem?_insert, different]
  created {other} new := by simp [writeVertex, new]
  unknown {other} new := by
    simp only [writeVertex, Std.ExtTreeSet.mem_insert,
      Std.LawfulEqOrd.compare_eq_iff_eq] at new
    rcases new with rfl | new
    · by_cases old : vertex ∈ graph.created
      · exact .inl old
      · exact .inr (unknown_of_new notCommitted old)
    · exact .inl new

theorem continues_ensureVertex (graph : Graph) (vertex : VertexId) :
    graph.Continues (graph.ensureVertex vertex) := by
  unfold ensureVertex
  split
  · exact .refl graph
  · rename_i unknown
    exact continues_writeVertex
      (isCommittedVertex_of_unknown (by simpa using unknown)) none []

/-- A replaced edge leaves the committed edges alone if the new edge survives as
the stored one does. -/
theorem committed_insert {graph next : Graph} {link : Link} {edge : Edge}
    (edges : next.edges = graph.edges.insert link edge)
    (survives : Option.Rel Edge.Alike (next.survivor? .permanent link)
      (graph.survivor? .permanent link)) (other : Link) :
    Option.Rel Edge.Alike (next.survivor? .permanent other)
      (graph.survivor? .permanent other) := by
  by_cases same : link = other
  · exact same ▸ survives
  · have lookup :
        next.survivor? .permanent other = graph.survivor? .permanent other := by
      simp [survivor?, edges, Std.ExtTreeMap.getElem?_insert, same]
    rw [lookup]
    exact optionRel_refl Edge.Alike.refl _

/-- Adding an edge whose values do not conflict leaves the committed edges
alone. -/
theorem continues_writeEdge {graph : Graph} {link : Link}
    {values : List (PropertyId × Value)}
    (agreeing : graph.edgeConflict? link values = none) :
    graph.Continues (graph.writeEdge link values).2 where
  committed := by
    refine committed_insert (writeEdge_edges graph link values) ?_
    simp only [survivor?, getElem?_writeEdge, if_pos, addedEdge]
    cases found : graph.edges[link]? with
    | none => simp [Option.filter, EdgeHistory.visible]
    | some edge =>
        cases shown : edge.history.visible .permanent with
        | false => simp [Option.filter, shown]
        | true =>
            have kept : edge.properties.conflict? values = none := by
              simpa [edgeConflict?, found, shown] using agreeing
            have alike : Edge.Alike
                ⟨edge.id, .committed, edge.properties.setAll values⟩
                ⟨edge.id, .committed, edge.properties⟩ :=
              ⟨rfl, rfl, Properties.alike_setAll kept⟩
            simpa [Option.filter, shown] using alike
  vertices _ := by rw [writeEdge_vertices]
  created new := by rwa [writeEdge_created]
  unknown new := .inl (by rwa [writeEdge_created] at new)

/-- Removing an edge continues the graph. -/
theorem continues_removeEdge? {graph next : Graph} {link : Link}
    (removal : graph.removeEdge? link = some next) : graph.Continues next := by
  obtain ⟨edge, history, found, removed, rfl⟩ := removeEdge?_eq_some removal
  refine ⟨committed_insert rfl ?_, fun _ => rfl, fun new => new,
    fun new => .inl new⟩
  have shown := (EdgeHistory.visible_of_remove? removed).2
  simp only [survivor?, found, Std.ExtTreeMap.getElem?_insert_self]
  cases committed : edge.history.visible .permanent with
  | false => simp [Option.filter, shown, committed]
  | true => simpa [Option.filter, shown, committed] using Edge.Alike.refl _

/-- Staging a step continues the graph, whether it is accepted or not. -/
theorem continues_stage (graph : Graph) (step : BatchStep) :
    graph.Continues (graph.stage step) := by
  rcases graph.stage_cases step
    with same | ⟨vertex, type, values, notCommitted, same⟩ |
    ⟨link, values, agreeing, same⟩ | ⟨link, removal⟩
  · rw [same]
    exact .refl graph
  · rw [same]
    exact continues_writeVertex notCommitted type values
  · rw [same]
    have known := (graph.continues_ensureVertex link.source).trans
      ((graph.ensureVertex link.source).continues_ensureVertex link.target)
    refine known.trans (continues_writeEdge ?_)
    simpa [edgeConflict?] using agreeing
  · exact continues_removeEdge? removal

/-- However a batch is staged, it leaves alone what was committed. -/
theorem continues_stageAll (graph : Graph) (steps : List BatchStep) :
    graph.Continues (graph.stageAll steps) := by
  induction steps generalizing graph with
  | nil => exact .refl graph
  | cons step rest inductionHypothesis =>
      exact (graph.continues_stage step).trans
        (inductionHypothesis (graph.stage step))

/-- A sound graph stays sound while steps are staged. -/
theorem Sound.stageAll
    {graph : Graph}
    (sound : graph.Sound)
    (steps : List BatchStep) :
    (graph.stageAll steps).Sound := by
  induction steps generalizing graph with
  | nil => exact sound
  | cons step rest inductionHypothesis =>
      exact inductionHypothesis (sound.stage step)

end Graph

end DeltaGraph
