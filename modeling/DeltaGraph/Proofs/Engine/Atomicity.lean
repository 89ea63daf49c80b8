import DeltaGraph.Proofs.Engine.Naming
import DeltaGraph.Proofs.Graph.Rollback
import DeltaGraph.Proofs.Isolation

/-!
# Batches are atomic

If no sink can fail, a batch fails for one of two reasons: a type that is to be
removed is not known, or a change conflicts with what is committed.  A batch
that fails sends nothing and leaves all answers and all rows as they were, and
one that succeeds commits all its changes.
-/

namespace DeltaGraph

/-! ## Rows on graphs that show the same -/

namespace Session

/-! ## How batches end -/

/-- What a batch that succeeds has done. -/
structure Commits
    (session : Session)
    (changes : List Change)
    (after : Session) : Prop where
  engine : after.engine = session.engine
  quiet : after.services.graph.isPending = false
  /-- All names were resolved, all steps taken and committed, and the committed
  edges are changed as the changes ask, one after another. -/
  exists_resolved : ∃ resolved,
    changes.mapM Change.resolve session.services.catalog =
      (.ok resolved, after.services.catalog) ∧
    session.services.graph.Accepts (resolved.flatMap ResolvedChange.steps) ∧
    after.services.graph =
      (session.services.graph.stageAll
        (resolved.flatMap ResolvedChange.steps)).commit.2 ∧
    after.services.graph.linksIn .permanent =
      LinkChange.applyAll (session.services.graph.linksIn .permanent)
        (resolved.map ResolvedChange.linkChange)

variable {session : Session} {changes : List Change}

/-- A batch that succeeds has committed its changes. -/
theorem Sound.commits_apply
    (sound : session.Sound)
    (quiet : session.services.graph.isPending = false)
    {report : BatchReport}
    (succeeds : (session.engine.apply changes session.services).1 =
      .ok report) :
    session.Commits changes (session.call (.apply changes)) := by
  obtain ⟨outcome, later, run, called, ends⟩ := sound.apply_steps changes
  rw [run] at succeeds
  cases succeeds
  rw [called]
  cases ends with
  | committed report catalog resolved staged outlets counters names accepted
        stages =>
      subst stages
      refine ⟨rfl, rfl, resolved, names, accepted, rfl, ?_⟩
      have start : session.services.graph.linksIn .merged =
          session.services.graph.linksIn .permanent :=
        (sound.graph.stagesAsSet quiet []).merged
      rw [Graph.linksIn_commit, Graph.linksIn_merged_stageAll accepted, start,
        ResolvedChange.linkChanges_flatMap]

end Session

end DeltaGraph
