import DeltaGraph.Proofs.Graph.Acceptance
import DeltaGraph.Proofs.Graph.Written

/-!
# What a batch cannot change

While a batch is staged, and once it is taken back, committed vertices have the
types and values that they had at the start.  The values of a committed edge
stay the same up to the signs of zeros: since both zeros are equal, an edge may
be added again with a zero of the other sign, which then replaces the stored
one, and taking back the batch does not bring the stored one back.  No other
step changes a value.
-/

namespace DeltaGraph

/-- Values that are alike but not the same are the two zeros. -/
theorem Value.Alike.zeros_of_ne {left right : Value} (alike : left.Alike right)
    (different : left ≠ right) :
    ∃ number other : Binary64, left = .float number ∧ right = .float other ∧
      number.magnitude = 0 ∧ other.magnitude = 0 ∧ number ≠ other := by
  rcases alike with same | ⟨number, other, rfl, rfl, zero, otherZero⟩
  · exact absurd same different
  · exact ⟨number, other, rfl, rfl, zero, otherZero,
      fun same => different (same ▸ rfl)⟩

/-- A property has the last of the values that are set for it, or its old
value. -/
theorem Properties.getElem?_setAll (properties : Properties)
    (values : List (PropertyId × Value)) (property : PropertyId) :
    (properties.setAll values)[property]? =
      ((Properties.setAll ∅ values)[property]?).or properties[property]? := by
  induction values generalizing properties with
  | nil => simp [setAll]
  | cons first rest inductionHypothesis =>
      have setFirst (stored : Properties) :
          stored.setAll (first :: rest) =
            setAll (stored.insert first.1 first.2) rest := rfl
      have inserted :
          (Std.ExtTreeMap.insert properties first.1 first.2)[property]? =
            ((Std.ExtTreeMap.insert ∅ first.1 first.2 :
                Properties)[property]?).or
              properties[property]? := by
        rw [Std.ExtTreeMap.getElem?_insert, Std.ExtTreeMap.getElem?_insert]
        split <;> simp
      rw [setFirst, setFirst, inductionHypothesis,
        inductionHypothesis (Std.ExtTreeMap.insert ∅ first.1 first.2), inserted,
        Option.or_assoc]

namespace Graph

/-- A step adds again an edge that is committed at the start, with equal values,
the last of which for some property is the other zero than the stored one. -/
inductive FlipsZero (start : Graph) : BatchStep → Prop
  | edge {link : Link} {edge : Edge} {values : List (PropertyId × Value)}
      {property : PropertyId} {stored given : Binary64}
      (known : start.edges[link]? = some edge)
      (equal : edge.properties.conflict? values = none)
      (found : edge.properties[property]? = some (.float stored))
      (last : (Properties.setAll ∅ values)[property]? = some (.float given))
      (zero : stored.magnitude = 0) (another : given.magnitude = 0)
      (opposite : given ≠ stored) : FlipsZero start (.addEdge link values)

/-- The vertices and edges of one graph are in another one, the vertices with
the same types and values, the edges with the same numbers and links, and with
values that are the same in some sense. -/
structure KeepsCommitted
    (same : Properties → Properties → Prop)
    (start now : Graph) :
    Prop where
  vertices {vertex : VertexId} {stored : Vertex}
    (known : start.vertices[vertex]? = some stored) :
      now.vertices[vertex]? = some stored
  edges {id : EdgeId} {link : Link} {edge : Edge}
    (known : start.edge? id = some (link, edge)) :
    ∃ current, now.edge? id = some (link, current) ∧
      same current.properties edge.properties

/-! ## What the graph at the start has in common with the graph of a batch -/

theorem propertiesAt_of_getElem?
    {graph : Graph}
    {link : Link}
    {edge : Edge}
    (found : graph.edges[link]? = some edge) :
    graph.propertiesAt link = edge.properties := by
  rw [propertiesAt, found]
  rfl

namespace Continues

variable {start now : Graph} {link : Link} {edge : Edge}

/-- The edges of the start are committed throughout the batch. -/
theorem exists_committed
    (settled : start.Settled)
    (continues : start.Continues now)
    (known : start.edges[link]? = some edge) :
    ∃ current, now.edges[link]? = some current ∧
      current.history.visible .permanent = true ∧ current.id = edge.id ∧
      current.properties.Alike edge.properties := by
  have committed := continues.committed link
  rw [survivor?_of_batch_eq_empty settled.reachable.sound settled.batch_eq_empty
    rfl, known]
    at committed
  cases survives : now.survivor? .permanent link with
  | none =>
      rw [survives] at committed
      cases committed
  | some survivor =>
      rw [survives] at committed
      cases committed with
      | some alike =>
          obtain ⟨current, found, shown, rfl⟩ :=
            survivor?_eq_some_iff.mp survives
          exact ⟨current, found, shown, alike.id, alike.properties⟩

theorem alike_propertiesAt
    (settled : start.Settled)
    (continues : start.Continues now)
    (known : start.edges[link]? = some edge) :
    (now.propertiesAt link).Alike edge.properties := by
  obtain ⟨current, found, _, _, alike⟩ :=
    continues.exists_committed settled known
  rw [propertiesAt_of_getElem? found]
  exact alike

/-- Taking back the batch leaves the values of the edges of the start as they
are. -/
theorem propertiesAt_rollback
    (settled : start.Settled)
    (continues : start.Continues now)
    (known : start.edges[link]? = some edge) :
    now.rollback.2.propertiesAt link = now.propertiesAt link := by
  obtain ⟨current, found, shown, _, _⟩ :=
    continues.exists_committed settled known
  have survives := survivor?_eq_some_iff.mpr ⟨current, found, shown, rfl⟩
  rw [propertiesAt_of_getElem? found,
    propertiesAt_of_getElem?
      ((getElem?_edges_rollback now link).trans survives)]

/-- Taking back the batch is one more way to go on from the start. -/
theorem rollback (settled : start.Settled) (sound : now.Sound)
    (continues : start.Continues now) : start.Continues now.rollback.2 where
  committed other := by
    have restored := (Graph.alike_rollback settled continues).edges other
    rwa [survivor?_of_batch_eq_empty sound.rollback rfl rfl,
      survivor?_of_batch_eq_empty settled.reachable.sound settled.batch_eq_empty
        rfl]
  vertices _ := by rw [(Graph.alike_rollback settled continues).vertices]
  created new := by simp [settled.created_eq_empty] at new
  unknown new := by simp [Graph.rollback, settle] at new

/-- What is committed at the start is kept if the values of the edges are. -/
theorem keepsCommitted
    {same : Properties → Properties → Prop}
    (settled : start.Settled)
    (sound : now.Sound)
    (continues : start.Continues now)
    (values : ∀ {link edge}, start.edges[link]? = some edge →
      same (now.propertiesAt link) edge.properties) :
    start.KeepsCommitted same now where
  vertices {vertex stored} known := by
    have old : vertex ∉ now.created := by
      intro new
      rcases continues.unknown new with created | missing
      · simp [settled.created_eq_empty] at created
      · simp [missing] at known
    exact (continues.vertices old).trans known
  edges {id link edge} known := by
    obtain ⟨present, rfl⟩ := settled.reachable.sound.edge?_eq_some_iff.mp known
    obtain ⟨current, found, _, number, _⟩ :=
      continues.exists_committed settled present
    refine ⟨current, sound.edge?_eq_some_iff.mpr ⟨found, number⟩, ?_⟩
    rw [← propertiesAt_of_getElem? found]
    exact values present

end Continues

theorem KeepsCommitted.propertiesAt_eq
    {start now : Graph}
    (settled : start.Settled)
    (sound : now.Sound)
    (keeps : start.KeepsCommitted Eq now)
    {link : Link}
    {edge : Edge}
    (known : start.edges[link]? = some edge) :
    now.propertiesAt link = edge.properties := by
  have numbered := settled.reachable.sound.edge?_eq_some_iff.mpr ⟨known, rfl⟩
  obtain ⟨current, found, equal⟩ := keeps.edges numbered
  rw [propertiesAt_of_getElem? (sound.edge?_eq_some_iff.mp found).1, equal]

/-! ## Steps that flip a zero -/

/-- Equal values change nothing when they are set, unless one of them is the
other zero than the stored one. -/
theorem setAll_eq_self
    {start : Graph}
    {link : Link}
    {edge : Edge}
    {values : List (PropertyId × Value)}
    (known : start.edges[link]? = some edge)
    (equal : edge.properties.conflict? values = none)
    (steady : ¬ start.FlipsZero (.addEdge link values)) :
    edge.properties.setAll values = edge.properties := by
  refine Std.ExtTreeMap.ext_getElem? fun property => ?_
  have alike := Properties.alike_setAll equal property
  rw [Properties.getElem?_setAll] at alike ⊢
  cases last : (Properties.setAll ∅ values)[property]? with
  | none => rw [Option.none_or]
  | some given =>
      rw [last, Option.some_or] at alike
      rw [Option.some_or]
      generalize found : edge.properties[property]? = stored? at alike
      cases alike with
      | some alike =>
          by_contra different
          obtain ⟨number, other, rfl, rfl, zero, otherZero, opposite⟩ :=
            alike.zeros_of_ne fun same => different (congrArg some same)
          exact steady (.edge known equal found last otherZero zero opposite)

variable {start now : Graph} {link : Link} {edge : Edge} {step : BatchStep}

/-- What the graph at the start resists is refused throughout the batch, and
nothing else is. -/
theorem Continues.refused_iff_resists (settled : start.Settled)
    (continues : start.Continues now) :
    (∃ error, now.attempt step = .error error) ↔ start.Resists step := by
  have alike := Graph.alike_rollback settled continues
  rw [Graph.refused_iff_resists]
  exact ⟨fun resists => resists.alike alike,
    fun resists => resists.alike alike.symm⟩

/-- A step that flips no zero keeps the values of an edge that is committed at
the start, as long as the batch has kept them so far. -/
theorem Continues.propertiesAt_stage
    (settled : start.Settled)
    (continues : start.Continues now)
    (known : start.edges[link]? = some edge)
    (steady : ¬ start.FlipsZero step)
    (kept : now.propertiesAt link = edge.properties) :
    (now.stage step).propertiesAt link = edge.properties := by
  cases taken : now.attempt step with
  | error error => rw [stage_of_refused taken, kept]
  | ok next =>
      rw [stage_of_attempt taken, propertiesAt_attempt taken, kept]
      have accepted : ¬ start.Resists step := by
        rw [← continues.refused_iff_resists settled]
        simp [taken]
      cases step with
      | putVertex vertex type values => rfl
      | removeEdge other => rfl
      | addEdge other values =>
          rw [BatchStep.valuesFor]
          split
          · rename_i same
            subst same
            refine setAll_eq_self known ?_ steady
            by_contra conflict
            obtain ⟨property, differs⟩ := Option.ne_none_iff_exists'.mp conflict
            exact accepted (.edgeValue known differs)
          · rfl

theorem Continues.propertiesAt_stageAll (settled : start.Settled)
    (continues : start.Continues now) (known : start.edges[link]? = some edge)
    (kept : now.propertiesAt link = edge.properties) {steps : List BatchStep}
    (steady : ∀ step ∈ steps, ¬ start.FlipsZero step) :
    (now.stageAll steps).propertiesAt link = edge.properties := by
  induction steps generalizing now with
  | nil => exact kept
  | cons step rest inductionHypothesis =>
      obtain ⟨steadyStep, steadyRest⟩ := List.forall_mem_cons.mp steady
      have keptStep :=
        continues.propertiesAt_stage settled known steadyStep kept
      exact inductionHypothesis (continues.trans (now.continues_stage step))
        keptStep steadyRest

/-- A step that flips a zero is accepted at any point of the batch, and changes
a value of an edge that is committed at the start. -/
theorem FlipsZero.changes
    (settled : start.Settled)
    (continues : start.Continues now)
    (flips : start.FlipsZero step) :
    ∃ link edge, start.edges[link]? = some edge ∧
      (now.stage step).propertiesAt link ≠ edge.properties := by
  cases flips with
  | @edge link edge values property stored given known equal found last _ _
        opposite =>
      refine ⟨link, edge, known, fun unchanged => opposite ?_⟩
      cases taken : now.attempt (.addEdge link values) with
      | error error =>
          cases (continues.refused_iff_resists settled).mp ⟨error, taken⟩ with
          | edgeValue present differs =>
              cases known.symm.trans present
              simp [equal] at differs
      | ok next =>
          have written := congrArg (·[property]?) unchanged
          simp only [stage_of_attempt taken, propertiesAt_attempt taken,
            BatchStep.valuesFor, if_true, found] at written
          rw [Properties.getElem?_setAll, last] at written
          simpa using written

/-! ## The whole batch -/

/-- At every point of a batch, and once it is taken back there, committed
vertices are as they were at the start, and so are committed edges up to the
signs of zeros.  They are exactly as they were unless a step adds a committed
edge again with the other zero than the stored one. -/
theorem freezes_committed (settled : start.Settled) (steps : List BatchStep) :
    (∀ before, before <+: steps →
      start.KeepsCommitted Properties.Alike (start.stageAll before) ∧
        start.KeepsCommitted Properties.Alike
          (start.stageAll before).rollback.2) ∧
    ((∀ before, before <+: steps →
      start.KeepsCommitted Eq (start.stageAll before) ∧
        start.KeepsCommitted Eq (start.stageAll before).rollback.2) ↔
      ∀ step ∈ steps, ¬ start.FlipsZero step) := by
  have continues := start.continues_stageAll
  have sound := settled.reachable.sound.stageAll
  -- Taking back the batch keeps values, so both graphs keep what the first one
  -- does.
  have keeps {same : Properties → Properties → Prop} (before : List BatchStep)
      (values : ∀ {link edge}, start.edges[link]? = some edge →
        same ((start.stageAll before).propertiesAt link) edge.properties) :
      start.KeepsCommitted same (start.stageAll before) ∧
        start.KeepsCommitted same (start.stageAll before).rollback.2 := by
    have back := (continues before).rollback settled (sound before)
    refine ⟨(continues before).keepsCommitted settled (sound before) values,
      back.keepsCommitted settled (sound before).rollback fun known => ?_⟩
    rw [(continues before).propertiesAt_rollback settled known]
    exact values known
  refine ⟨fun before _ =>
    keeps before ((continues before).alike_propertiesAt settled), ?_, ?_⟩
  · intro exactly step member flips
    obtain ⟨before, after, rfl⟩ := List.append_of_mem member
    obtain ⟨link, edge, known, changed⟩ :=
      flips.changes settled (continues before)
    have kept := (exactly (before ++ [step]) (by simp)).1
    have unchanged := kept.propertiesAt_eq settled (sound _) known
    rw [stageAll_append] at unchanged
    exact changed unchanged
  · intro steady before initial
    refine keeps before fun {link edge} known => ?_
    have steadyBefore := fun step member => steady step (initial.subset member)
    exact (Continues.refl start).propertiesAt_stageAll settled known
      (propertiesAt_of_getElem? known) steadyBefore

/-- A batch that removes a committed edge and adds it again with its value, then
tries in vain to give the edge another value and a committed vertex another
type. -/
theorem freezes_committed_toggled_edge :
    let start :=
      (empty.stage (.addEdge ⟨⟨1⟩, ⟨2⟩, .default⟩ [(⟨0⟩, .int 7)])).commit.2
    let steps : List BatchStep :=
      [.removeEdge ⟨⟨1⟩, ⟨2⟩, .default⟩,
        .addEdge ⟨⟨1⟩, ⟨2⟩, .default⟩ [(⟨0⟩, .int 7)],
        .addEdge ⟨⟨1⟩, ⟨2⟩, .default⟩ [(⟨0⟩, .int 0)],
          .putVertex ⟨2⟩ (some ⟨1⟩) []]
    start.Settled ∧ start.edgeProperty? ⟨0⟩ ⟨0⟩ = some (.int 7) ∧
      start.KeepsCommitted Eq (start.stageAll steps) ∧
      start.KeepsCommitted Eq (start.stageAll steps).rollback.2 := by
  intro start steps
  have settled : start.Settled := .commit (.stage _ .empty)
  have given (property : PropertyId) (payload : Int64) (number : Binary64) :
      (Properties.setAll ∅ [(⟨0⟩, .int payload)])[property]? ≠
        some (.float number) := by
    rw [Properties.setAll, List.foldl_cons, List.foldl_nil,
      Std.ExtTreeMap.getElem?_insert]
    split <;> simp
  have steady : ∀ step ∈ steps, ¬ start.FlipsZero step := by
    rintro step member flips
    cases flips with
    | edge known equal found last zero another opposite =>
        simp only [steps, List.mem_cons, BatchStep.addEdge.injEq, reduceCtorEq,
          List.not_mem_nil, false_or, or_false] at member
        rcases member with ⟨-, rfl⟩ | ⟨-, rfl⟩ <;> exact given _ _ _ last
  exact ⟨settled, by decide +kernel,
    (freezes_committed settled steps).2.mpr steady steps
      (List.prefix_refl steps)⟩

/-- The other zero replaces the stored one, and stays when the batch is taken
back. -/
theorem not_freezes_stored_zero :
    let start :=
      (empty.stage (.addEdge ⟨⟨1⟩, ⟨2⟩, .default⟩ [(⟨0⟩, .float ⟨0⟩)])).commit.2
    let steps : List BatchStep :=
      [.addEdge ⟨⟨1⟩, ⟨2⟩, .default⟩ [(⟨0⟩, .float ⟨0x8000000000000000⟩)]]
    start.Settled ∧ start.edgeProperty? ⟨0⟩ ⟨0⟩ = some (.float ⟨0⟩) ∧
      (start.stageAll steps).edgeProperty? ⟨0⟩ ⟨0⟩ =
        some (.float ⟨0x8000000000000000⟩) ∧
      (start.stageAll steps).rollback.2.edgeProperty? ⟨0⟩ ⟨0⟩ =
        some (.float ⟨0x8000000000000000⟩) := by
  intro start steps
  refine ⟨.commit (.stage _ .empty), ?_, ?_, ?_⟩ <;> decide +kernel

end Graph

end DeltaGraph
