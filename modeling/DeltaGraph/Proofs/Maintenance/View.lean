import DeltaGraph.Proofs.Graph.Continuation
import DeltaGraph.Proofs.Match

/-!
# Versions that show the same

One version of a graph can show what another version of another graph shows: the
same edges, with values alike, between the same vertices.  A pattern has then
the same matches in both.  The committed version survives the staging of a batch
and its end by a rollback, and the merged version is committed by a commit.
-/

namespace DeltaGraph

/-- A comparison cannot tell values that are alike from each other. -/
theorem Comparison.passes_congr
    (comparison : Comparison)
    {left other right another : Option Value}
    (lefts : Option.Rel Value.Alike left other)
    (rights : Option.Rel Value.Alike right another) :
    comparison.passes left right = comparison.passes other another := by
  cases lefts with
  | none => rfl
  | some leftAlike =>
      cases rights with
      | none => rfl
      | some rightAlike =>
          simp only [passes, holds, leftAlike.compare?_eq rightAlike]

theorem Predicate.holds_congr
    {predicate : Predicate}
    {value another : PropertyReference → Option Value}
    (alike : ∀ reference,
      Option.Rel Value.Alike (value reference) (another reference)) :
    predicate.holds value = predicate.holds another := by
  refine predicate.comparison.passes_congr (alike predicate.left) ?_
  cases predicate.right with
  | literal value => exact optionRel_refl Value.Alike.refl (some value)
  | property reference => exact alike reference

namespace Graph

/-- A version of a graph shows what another version of another graph shows. -/
structure ShowsAs
    (graph : Graph)
    (version : Version)
    (other : Graph)
    (another : Version) :
    Prop where
  edges (link : Link) :
    Option.Rel Edge.Alike (graph.survivor? version link)
      (other.survivor? another link)
  ends {link : Link} {edge : Edge}
    (found : graph.survivor? version link = some edge)
      (direction : Direction) :
    graph.vertices[link.near direction]? = other.vertices[link.near direction]?

namespace ShowsAs

variable {graph other : Graph} {version another : Version}

theorem symm (agrees : graph.ShowsAs version other another) :
    other.ShowsAs another graph version where
  edges link := by
    refine optionRel_symm ?_ (agrees.edges link)
    intro left right alike
    exact ⟨alike.id.symm, alike.history.symm, alike.properties.symm⟩
  ends {link edge} found direction := by
    have related := agrees.edges link
    rw [found] at related
    generalize stored : graph.survivor? version link = counterpart at related
    cases related with
    | some _ => exact (agrees.ends stored direction).symm

theorem trans
    {third : Graph}
    {last : Version}
    (first : graph.ShowsAs version other another)
    (second : other.ShowsAs another third last) :
    graph.ShowsAs version third last where
  edges link :=
    optionRel_trans (fun _ _ _ left right => left.trans right)
      (first.edges link)
      (second.edges link)
  ends {link edge} found direction := by
    have related := first.edges link
    rw [found] at related
    generalize stored : other.survivor? another link = counterpart at related
    cases related with
    | some _ =>
        exact (first.ends found direction).trans (second.ends stored direction)

/-- An edge that one version shows is shown by the other. -/
theorem edge
    (agrees : graph.ShowsAs version other another)
    (sound : graph.Sound)
    (otherSound : other.Sound)
    {id : EdgeId}
    {link : Link}
    {edge : Edge}
    (found : graph.edge? id = some (link, edge))
    (visible : edge.history.visible version = true) :
    ∃ counterpart, other.edge? id = some (link, counterpart) ∧
      counterpart.history.visible another = true ∧
      edge.properties.Alike counterpart.properties := by
  obtain ⟨stored, number⟩ := sound.edge?_eq_some_iff.mp found
  have survives :
      graph.survivor? version link = some { edge with history := .committed } :=
    survivor?_eq_some_iff.mpr ⟨edge, stored, visible, rfl⟩
  have related := agrees.edges link
  rw [survives] at related
  generalize image : other.survivor? another link = survivor at related
  cases related with
  | some alike =>
      obtain ⟨counterpart, present, shown, rfl⟩ :=
        survivor?_eq_some_iff.mp image
      refine ⟨counterpart, otherSound.edge?_eq_some_iff.mpr ⟨present, ?_⟩,
        shown, alike.properties⟩
      exact alike.id.symm.trans number

theorem ends_of_edge
    (agrees : graph.ShowsAs version other another)
    (sound : graph.Sound)
    {id : EdgeId}
    {link : Link}
    {edge : Edge}
    (found : graph.edge? id = some (link, edge))
    (visible : edge.history.visible version = true)
    (direction : Direction) :
    graph.vertices[link.near direction]? =
      other.vertices[link.near direction]? := by
  have stored := (sound.edge?_eq_some_iff.mp found).1
  exact agrees.ends (survivor?_eq_some_iff.mpr ⟨edge, stored, visible, rfl⟩)
    direction

theorem joins
    (agrees : graph.ShowsAs version other another)
    (sound : graph.Sound)
    (otherSound : other.Sound)
    {relation : Relation}
    {catalog : Catalog}
    {assigned : String → VertexId}
    {id : EdgeId}
    (joins : relation.Joins catalog graph version assigned id) :
    relation.Joins catalog other another assigned id := by
  obtain ⟨link, edge, found, visible, source, target, typed⟩ := joins
  obtain ⟨counterpart, present, shown, _⟩ :=
    agrees.edge sound otherSound found visible
  exact ⟨link, counterpart, present, shown, source, target, typed⟩

theorem transfers
    (agrees : graph.ShowsAs version other another)
    (sound : graph.Sound)
    (otherSound : other.Sound)
    {pattern : Pattern}
    (valid : pattern.Valid)
    {catalog : Catalog}
    {assigned : String → VertexId}
    {edges : List EdgeId}
    (found : pattern.Matches catalog graph (fun _ => version) assigned edges) :
    pattern.Matches catalog other (fun _ => another) assigned edges where
  joins := found.joins.imp fun _ _ joins => agrees.joins sound otherSound joins
  types name declared type given := by
    obtain ⟨_, _, link, edge, direction, present, visible, near⟩ :=
      found.exists_edge_at valid declared
    have same := agrees.ends_of_edge sound present visible direction
    obtain ⟨number, stored, numbers⟩ := found.types name declared type given
    refine ⟨number, ?_, numbers⟩
    rw [vertexType?, ← near, ← same, near]
    exact stored
  predicates predicate member := by
    rw [← found.predicates predicate member]
    refine (Predicate.holds_congr fun reference => ?_).symm
    unfold Pattern.valueOf?
    refine optionRel_bind (optionRel_refl (fun _ => rfl) _) ?_
    rintro property _ rfl
    split
    · rename_i declared
      obtain ⟨_, _, link, edge, direction, present, visible, near⟩ :=
        found.exists_edge_at valid declared
      have same := agrees.ends_of_edge sound present visible direction
      rw [vertexProperty?, vertexProperty?, ← near, same]
      exact optionRel_refl Value.Alike.refl _
    · refine optionRel_bind (optionRel_refl (fun _ => rfl) _) ?_
      rintro index _ rfl
      cases bound : edges[index]? with
      | none => exact .none
      | some id =>
          obtain ⟨entry, _, link, edge, present, visible, _⟩ :=
            exists_left_of_forall₂ found.joins (List.mem_of_getElem? bound)
          obtain ⟨counterpart, image, _, alike⟩ :=
            agrees.edge sound otherSound present visible
          simpa [edgeProperty?, present, image] using alike ⟨property⟩

/-- A pattern has the same matches in versions that show the same. -/
theorem yields_iff
    (agrees : graph.ShowsAs version other another)
    (sound : graph.Sound)
    (otherSound : other.Sound)
    {pattern : Pattern}
    (valid : pattern.Valid)
    {catalog : Catalog}
    {row : Row} :
    pattern.Yields catalog graph (fun _ => version) row ↔
      pattern.Yields catalog other (fun _ => another) row := by
  constructor
  · rintro ⟨assigned, vertices, found⟩
    exact ⟨assigned, vertices, agrees.transfers sound otherSound valid found⟩
  · rintro ⟨assigned, vertices, found⟩
    exact ⟨assigned, vertices,
      agrees.symm.transfers otherSound sound valid found⟩

end ShowsAs

/-! ## Staging and ending a batch -/

/-- While a batch is staged, the committed version shows what it showed
before. -/
theorem Continues.showsAs {start now : Graph} (continues : start.Continues now)
    (sound : now.Sound) : now.ShowsAs .permanent start .permanent where
  edges := continues.committed
  ends {link edge} found direction := by
    obtain ⟨stored, present, visible, _⟩ := survivor?_eq_some_iff.mp found
    exact continues.vertices (sound.committed_ends present visible direction)

theorem survivor?_settle (graph : Graph) (version : Version) (link : Link) :
    (graph.settle (·.visible version)).survivor? .permanent link =
      graph.survivor? version link := by
  rw [survivor?, getElem?_settle, survivor?]
  cases (graph.edges[link]?).filter (·.history.visible version) <;> rfl

/-- A commit shows what the merged version showed. -/
theorem showsAs_commit (graph : Graph) :
    graph.commit.2.ShowsAs .permanent graph .merged where
  edges link := by
    rw [commit, survivor?_settle]
    exact optionRel_refl Edge.Alike.refl _
  ends _ _ := rfl

/-- A rollback shows what the committed version showed. -/
theorem showsAs_rollback {graph : Graph} (sound : graph.Sound) :
    graph.rollback.2.ShowsAs .permanent graph .permanent where
  edges link := by
    have same :
        graph.rollback.2.survivor? .permanent link =
          graph.survivor? .permanent link :=
      graph.survivor?_settle .permanent link
    rw [same]
    exact optionRel_refl Edge.Alike.refl _
  ends {link edge} found direction := by
    have same :
        graph.rollback.2.survivor? .permanent link =
          graph.survivor? .permanent link :=
      graph.survivor?_settle .permanent link
    rw [same] at found
    obtain ⟨stored, present, visible, _⟩ := survivor?_eq_some_iff.mp found
    have old := sound.committed_ends present visible direction
    simp only [rollback, Std.ExtTreeMap.getElem?_filter']
    cases graph.vertices[link.near direction]? <;> simp [Option.filter, old]

section

variable {graph : Graph} {pattern : Pattern} {catalog : Catalog} {row : Row}

/-- Staging changes no match in the committed graph. -/
theorem Sound.yields_stageAll (sound : graph.Sound) (steps : List BatchStep)
    (valid : pattern.Valid) :
    pattern.Yields catalog (graph.stageAll steps) (fun _ => .permanent) row ↔
      pattern.Yields catalog graph (fun _ => .permanent) row := by
  have staged := sound.stageAll steps
  exact ((graph.continues_stageAll steps).showsAs staged).yields_iff staged
    sound valid

theorem Sound.yields_rollback (sound : graph.Sound) (valid : pattern.Valid) :
    pattern.Yields catalog graph.rollback.2 (fun _ => .permanent) row ↔
      pattern.Yields catalog graph (fun _ => .permanent) row :=
  (showsAs_rollback sound).yields_iff sound.rollback sound valid

/-- A commit turns the matches in the merged graph into those in the committed
one. -/
theorem Sound.yields_commit (sound : graph.Sound) (valid : pattern.Valid) :
    pattern.Yields catalog graph.commit.2 (fun _ => .permanent) row ↔
      pattern.Yields catalog graph (fun _ => .merged) row :=
  graph.showsAs_commit.yields_iff sound.commit sound valid

end

end Graph

end DeltaGraph
