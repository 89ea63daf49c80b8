import DeltaGraph.Proofs.Match
import DeltaGraph.Proofs.Plan.OfPattern

/-!
# Matches during a batch

The relations of a pattern move one after another from the committed to the
merged version.  Whether a row matches while one relation is read in a version
depends on the history of the edge that the row has for this relation, and on
nothing else that changes with the version.
-/

namespace DeltaGraph

/-- Whether an edge belongs to a version. -/
def Graph.showsEdge (graph : Graph) (id : EdgeId) (version : Version) : Bool :=
  (graph.edge? id).any fun found => found.2.history.visible version

/-- The edge, which may belong to any version, joins the ends of the relation
and has its type, if there is one. -/
def Relation.Spans (relation : Relation) (catalog : Catalog) (graph : Graph)
    (assigned : String → VertexId) (id : EdgeId) : Prop :=
  ∃ link edge, graph.edge? id = some (link, edge) ∧
    link.source = assigned relation.source ∧
    link.target = assigned relation.target ∧
    ∀ name, relation.type = some name →
      catalog.types.number? name = some link.type.number

theorem Relation.joins_iff
    {relation : Relation}
    {catalog : Catalog}
    {graph : Graph}
    {version : Version}
    {assigned : String → VertexId}
    {id : EdgeId} :
    relation.Joins catalog graph version assigned id ↔
      relation.Spans catalog graph assigned id ∧
        graph.showsEdge id version = true := by
  constructor
  · rintro ⟨link, edge, found, visible, ends⟩
    exact ⟨⟨link, edge, found, ends⟩, by simp [Graph.showsEdge, found, visible]⟩
  · rintro ⟨⟨link, edge, found, ends⟩, shown⟩
    refine ⟨link, edge, found, ?_, ends⟩
    simpa [Graph.showsEdge, found] using shown

namespace Pattern

/-- The row shows a match of edges that may belong to any version. -/
def Fits
    (pattern : Pattern)
    (catalog : Catalog)
    (graph : Graph)
    (row : Row) : Prop :=
  ∃ assigned, row.vertices = pattern.variableNames.map assigned ∧
    List.Forall₂ (fun relation id => relation.Spans catalog graph assigned id)
      pattern.relations row.edges ∧
    (∀ name ∈ pattern.variableNames, ∀ type, pattern.typeOf? name = some type →
      graph.HasNamedType catalog (assigned name) type) ∧
    ∀ predicate ∈ pattern.predicates,
      predicate.holds (pattern.valueOf? catalog graph assigned row.edges) = true

variable {pattern : Pattern} {catalog : Catalog} {graph : Graph} {row : Row}

theorem Fits.length (fits : pattern.Fits catalog graph row) :
    pattern.relations.length = row.edges.length := by
  obtain ⟨_, _, spans, _⟩ := fits
  exact spans.length_eq

/-- A row matches if it fits and each of its edges belongs to the version that
its relation is read in. -/
theorem yields_iff {reading : Nat → Version} :
    pattern.Yields catalog graph reading row ↔
      pattern.Fits catalog graph row ∧ ∀ index id, row.edges[index]? = some id →
        graph.showsEdge id (reading index) = true := by
  have split (assigned : String → VertexId) (relations : List Relation)
      (start : Nat)
      (edges : List EdgeId) :
      List.Forall₂ (fun entry id =>
          entry.1.Joins catalog graph (reading entry.2) assigned id)
          (relations.zipIdx start) edges ↔
        List.Forall₂
          (fun relation id => relation.Spans catalog graph assigned id)
            relations edges ∧
          ∀ index id, edges[index]? = some id →
            graph.showsEdge id (reading (start + index)) = true := by
    induction relations generalizing start edges with
    | nil =>
        simp only [List.zipIdx_nil, List.forall₂_nil_left_iff]
        constructor
        · rintro rfl
          exact ⟨rfl, fun _ _ found => by cases found⟩
        · exact And.left
    | cons relation rest inductionHypothesis =>
        cases edges with
        | nil => simp
        | cons edge others =>
            rw [List.zipIdx_cons, List.forall₂_cons, List.forall₂_cons,
              inductionHypothesis, Relation.joins_iff]
            constructor
            · rintro ⟨⟨spans, shown⟩, later, shownLater⟩
              refine ⟨⟨spans, later⟩, fun index id found => ?_⟩
              cases index with
              | zero =>
                  cases found
                  exact shown
              | succ index =>
                  have same : start + (index + 1) = start + 1 + index := by
                    omega
                  rw [same]
                  exact shownLater index id found
            · rintro ⟨⟨spans, later⟩, shown⟩
              refine ⟨⟨spans, shown 0 edge rfl⟩, later,
                fun index id found => ?_⟩
              have same : start + 1 + index = start + (index + 1) := by omega
              rw [same]
              exact shown (index + 1) id found
  constructor
  · rintro ⟨assigned, vertices, joins, types, predicates⟩
    obtain ⟨spans, shown⟩ := (split assigned _ 0 _).mp joins
    exact ⟨⟨assigned, vertices, spans, types, predicates⟩, by simpa using shown⟩
  · rintro ⟨⟨assigned, vertices, spans, types, predicates⟩, shown⟩
    exact ⟨assigned, vertices,
      (split assigned _ 0 _).mpr ⟨spans, by simpa using shown⟩, types,
      predicates⟩

/-- Only the versions in which the relations of the pattern are read matter. -/
theorem yields_congr {reading another : Nat → Version}
    (same : ∀ index < pattern.relations.length, reading index = another index) :
    pattern.Yields catalog graph reading row ↔
      pattern.Yields catalog graph another row := by
  rw [yields_iff, yields_iff]
  refine and_congr_right fun fits => ?_
  have length := fits.length
  refine forall_congr' fun index => forall_congr' fun id => ?_
  refine imp_congr_right fun found => ?_
  have below := (List.getElem?_eq_some_iff.mp found).1
  rw [same index (by omega)]

/-- Before the first relation has moved, all relations are read from the
committed version. -/
theorem yields_first :
    pattern.Yields catalog graph (Difference.mk 0 .permanent).reading row ↔
      pattern.Yields catalog graph (fun _ => .permanent) row := by
  apply yields_congr
  intro index _
  simp only [Difference.reading, Nat.not_lt_zero, if_false, ite_self]

/-- Once a relation has moved, the next one is about to move. -/
theorem yields_next (index : Nat) :
    pattern.Yields catalog graph (Difference.mk index .merged).reading row ↔
      pattern.Yields catalog graph
        (Difference.mk (index + 1) .permanent).reading row := by
  apply yields_congr
  intro other _
  simp only [Difference.reading]
  by_cases before : other < index
  · rw [if_pos before, if_pos (by omega)]
  · by_cases same : other = index
    · rw [if_neg before, if_pos same, if_pos (by omega)]
    · rw [if_neg before, if_neg same, if_neg (by omega), ite_self]

/-- After the last relation has moved, all relations are read from the merged
version. -/
theorem yields_last :
    pattern.Yields catalog graph
      (Difference.mk pattern.relations.length .permanent).reading row ↔
      pattern.Yields catalog graph (fun _ => .merged) row := by
  apply yields_congr
  intro index below
  simp only [Difference.reading, if_pos below]

/-- Whether a row matches while one relation is read in a version is told by the
history of an edge, if the rest of the row matches at all. -/
theorem exists_history
    {index : Nat}
    (inside : index < pattern.relations.length) :
    ∃ history : Option EdgeHistory, ∀ version,
      pattern.Yields catalog graph (Difference.mk index version).reading row ↔
        history.any (·.visible version) = true := by
  by_cases others : pattern.Fits catalog graph row ∧ ∀ other id, other ≠ index →
      row.edges[other]? = some id →
        graph.showsEdge id ((Difference.mk index .permanent).reading other) =
          true
  · obtain ⟨fits, shown⟩ := others
    have bound : index < row.edges.length := fits.length ▸ inside
    refine ⟨(graph.edge? row.edges[index]).map fun found => found.2.history,
      fun version => ?_⟩
    have here : (Difference.mk index version).reading index = version := by
      simp [Difference.reading]
    rw [yields_iff, Option.any_map]
    constructor
    · rintro ⟨_, all⟩
      have found := all index _ (List.getElem?_eq_getElem bound)
      rwa [here] at found
    · intro visible
      refine ⟨fits, fun other id found => ?_⟩
      by_cases same : other = index
      · subst same
        rw [here]
        rw [List.getElem?_eq_getElem bound] at found
        cases found
        exact visible
      · have kept := shown other id same found
        simpa only [Difference.reading, if_neg same] using kept
  · refine ⟨none, fun version => ?_⟩
    simp only [Option.any_none, Bool.false_eq_true, iff_false]
    intro yields
    obtain ⟨fits, shown⟩ := yields_iff.mp yields
    apply others
    refine ⟨fits, fun other id different found => ?_⟩
    have kept := shown other id found
    simpa only [Difference.reading, if_neg different] using kept

end Pattern

end DeltaGraph
