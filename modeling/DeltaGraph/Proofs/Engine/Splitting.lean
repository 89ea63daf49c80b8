import DeltaGraph.Proofs.Engine.Atomicity
import DeltaGraph.Proofs.Graph.Written

/-!
# Batches in two halves

If a batch can be applied as a whole and in two halves, both ways lead to the
same names, the same vertices and the same edges.  They do not always lead to
the same values: inside a batch an edge that is removed and added again keeps
its values, and a zero of the other sign is stored on a vertex only as long as
the vertex is not committed.
-/

namespace DeltaGraph

namespace Session

/-- The same data comes of a batch and of its two halves, except for the values
of the edges that are gone between the halves. -/
structure SplitsBatch
    (session : Session)
    (changes more : List Change) : Prop where
  catalog : (session.call (.apply (changes ++ more))).services.catalog =
    ((session.call (.apply changes)).call (.apply more)).services.catalog
  exists_resolved : ∃ resolved rest,
    changes.mapM Change.resolve session.services.catalog =
      (.ok resolved, (session.call (.apply changes)).services.catalog) ∧
    more.mapM Change.resolve (session.call (.apply changes)).services.catalog =
      (.ok rest, (session.call (.apply (changes ++ more))).services.catalog) ∧
    session.services.graph.SplitsAlike
      (session.call (.apply changes)).services.graph
      (session.call (.apply (changes ++ more))).services.graph
      ((session.call (.apply changes)).call (.apply more)).services.graph
      (resolved.flatMap ResolvedChange.steps)
      (rest.flatMap ResolvedChange.steps)

/-- If a batch succeeds as a whole, and both its halves succeed one after the
other, both ways lead to the same data. -/
theorem splits_batch
    (config : Config)
    (before : List Call)
    (changes more : List Change)
    (quiet : ((start config).run before).services.graph.isPending = false) :
    let now := (start config).run before
    let middle := now.call (.apply changes)
    ∀ report first second : BatchReport,
      (now.engine.apply (changes ++ more) now.services).1 = .ok report →
      (now.engine.apply changes now.services).1 = .ok first →
      (middle.engine.apply more middle.services).1 = .ok second →
      now.SplitsBatch changes more := by
  intro now middle report first second together earlier later
  have sound : now.Sound := (sound_start config).run before
  have middleSound : middle.Sound := sound.call _
  have whole := sound.commits_apply quiet together
  have half := sound.commits_apply quiet earlier
  have other := middleSound.commits_apply half.quiet later
  obtain ⟨resolvedAll, namesAll, acceptedAll, wholeGraph, _⟩ :=
    whole.exists_resolved
  obtain ⟨resolved, names, _, middleGraph, _⟩ := half.exists_resolved
  obtain ⟨rest, namesRest, acceptedRest, splitGraph, _⟩ := other.exists_resolved
  obtain ⟨again, catalog, restAgain, here, there, rfl⟩ :=
    Change.resolved_append namesAll
  -- The second half starts from the catalog that the first half leaves.
  obtain ⟨sameFirst, rfl⟩ := Prod.mk.inj (names.symm.trans here)
  obtain ⟨sameRest, sameCatalog⟩ := Prod.mk.inj (namesRest.symm.trans there)
  cases sameFirst
  cases sameRest
  refine ⟨sameCatalog.symm, resolved, rest, names, there, ?_⟩
  rw [List.flatMap_append] at acceptedAll wholeGraph
  rw [middleGraph] at acceptedRest
  have splits := sound.graph.splitsAlike quiet acceptedAll acceptedRest
  rwa [← middleGraph, ← wholeGraph, ← splitGraph] at splits

/-- A batch whose first half adds an edge and whose second half gives it a
value. -/
theorem splits_batch_for_added_edge :
    let edge : NewEdge := { source := ⟨1⟩, target := ⟨2⟩, type := some "knows" }
    let before : List Call := [.apply [.add { edge with source := ⟨2⟩ }]]
    let changes : List Change := [.remove ⟨⟨2⟩, ⟨2⟩, some "knows"⟩, .add edge]
    let more : List Change := [.add edge, .remove ⟨⟨2⟩, ⟨1⟩, none⟩]
    let now := (start {}).run before
    let middle := now.call (.apply changes)
    now.services.graph.isPending = false ∧
      (now.engine.apply (changes ++ more) now.services).1 =
        .ok { missing := 1, commit := ⟨1, 1, 2⟩ } ∧
      (now.engine.apply changes now.services).1 = .ok { commit := ⟨1, 1, 2⟩ } ∧
      (middle.engine.apply more middle.services).1 =
        .ok { missing := 1, commit := ⟨0, 0, 1⟩ } ∧
      now.SplitsBatch changes more := by
  intro edge before changes more now middle
  have quiet : now.services.graph.isPending = false := by decide +kernel
  have together : (now.engine.apply (changes ++ more) now.services).1 =
      .ok { missing := 1, commit := ⟨1, 1, 2⟩ } := by decide +kernel
  have earlier :
      (now.engine.apply changes now.services).1 =
        .ok { commit := ⟨1, 1, 2⟩ } := by
    decide +kernel
  have later : (middle.engine.apply more middle.services).1 =
      .ok { missing := 1, commit := ⟨0, 0, 1⟩ } := by decide +kernel
  exact ⟨quiet, together, earlier, later,
    splits_batch {} before changes more quiet _ _ _ together earlier later⟩

/-- A committed edge that is removed in the first half and added again in the
second keeps its value in a whole batch only, and so does a vertex that is given
the other zero. -/
theorem splits_differently_for_replaced_edge :
    let edge : NewEdge := { source := ⟨1⟩, target := ⟨2⟩ }
    let other (zero : Binary64) : NewEdge :=
      { source := ⟨3⟩, target := ⟨4⟩,
        sourceValues := .ofList [("z", Value.float zero)] }
    let before : List Call :=
      [.apply [.add { edge with edgeValues := .ofList [("w", Value.int 1)] }]]
    let changes : List Change := [.remove ⟨⟨1⟩, ⟨2⟩, none⟩, .add (other ⟨0⟩)]
    let more : List Change := [.add edge, .add (other ⟨0x8000000000000000⟩)]
    let now := (start {}).run before
    let middle := now.call (.apply changes)
    let whole := now.call (.apply (changes ++ more))
    let split := middle.call (.apply more)
    let w : PropertyId := ⟨0⟩
    let z : PropertyId := ⟨1⟩
    now.services.graph.isPending = false ∧
      (now.engine.apply (changes ++ more) now.services).1 =
        .ok { commit := ⟨1, 0, 2⟩ } ∧
      (now.engine.apply changes now.services).1 = .ok { commit := ⟨1, 1, 2⟩ } ∧
      (middle.engine.apply more middle.services).1 =
        .ok { commit := ⟨1, 0, 2⟩ } ∧
      whole.services.catalog.propertyName? w = some "w" ∧
      whole.services.catalog.propertyName? z = some "z" ∧
      whole.services.catalog.properties = split.services.catalog.properties ∧
      (whole.services.graph.propertiesAt ⟨⟨1⟩, ⟨2⟩, .default⟩)[w]? =
        some (.int 1) ∧
      (split.services.graph.propertiesAt ⟨⟨1⟩, ⟨2⟩, .default⟩)[w]? = none ∧
      whole.services.graph.vertexProperty? ⟨3⟩ z =
        some (.float ⟨0x8000000000000000⟩) ∧
      split.services.graph.vertexProperty? ⟨3⟩ z = some (.float ⟨0⟩) := by
  decide +kernel

end Session

end DeltaGraph
