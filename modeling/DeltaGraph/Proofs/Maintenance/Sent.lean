import DeltaGraph.Proofs.Engine.Session
import DeltaGraph.Proofs.Maintenance.View

/-!
# What a session sends

A batch whose changes can be staged sends the events of every standing query on
the staged graph.  Sinks in memory collect them, and the report counts them.
The events of a query lead from the rows of its pattern before the batch to
those after it.
-/

namespace DeltaGraph

namespace Session

/-- The events that a call sends for a standing query. -/
def sentFor (session : Session) (query : StandingQuery) : Call → List Event
  | .apply changes =>
      match session.services.staged? changes with
      | some graph => query.events graph
      | none => []
  | _ => []

/-- The events that a call sends for the standing query with a handle. -/
def sent (session : Session) (handle : Handle) (call : Call) : List Event :=
  (session.engine.queries.filter (·.handle = handle)).flatMap
    (session.sentFor · call)

/-- The events that a call sends to a sink. -/
def sentTo (session : Session) (sink : SinkId) (call : Call) : List Event :=
  (session.engine.queries.filter (·.sink = sink)).flatMap
    (session.sentFor · call)

/-- The events that a call sends for all standing queries. -/
def sentByAll (session : Session) (call : Call) : List Event :=
  session.engine.queries.flatMap (session.sentFor · call)

variable {session : Session}

/-- A handle stands for one standing query. -/
theorem Sound.sent_eq (sound : session.Sound) {query : StandingQuery}
    (member : query ∈ session.engine.queries) (call : Call) :
    session.sent query.handle call = session.sentFor query call := by
  have different := sound.engine.different
  unfold sent
  generalize session.engine.queries = queries at member different
  induction queries with
  | nil => cases member
  | cons first rest inductionHypothesis =>
      obtain ⟨apart, others⟩ := List.nodup_cons.mp different
      rcases List.mem_cons.mp member with rfl | later
      · have none : rest.filter (·.handle = query.handle) = [] := by
          rw [List.filter_eq_nil_iff]
          intro other among same
          rw [decide_eq_true_iff] at same
          exact apart (same ▸ List.mem_map_of_mem among)
        rw [List.filter_cons_of_pos (by simp), none, List.flatMap_cons,
          List.flatMap_nil, List.append_nil]
      · have unequal : first.handle ≠ query.handle := by
          intro same
          exact apart (same ▸ List.mem_map_of_mem later)
        rw [List.filter_cons_of_neg (by simpa using unequal)]
        exact inductionHypothesis later others

theorem sentFor_of_staged {changes : List Change} {graph : Graph}
    (staged : session.services.staged? changes = some graph) :
    (session.sentFor · (.apply changes)) = (StandingQuery.events · graph) := by
  funext query
  rw [sentFor, staged]

theorem sentFor_of_unstaged {changes : List Change}
    (unstaged : session.services.staged? changes = none) :
    (session.sentFor · (.apply changes)) = fun _ => [] := by
  funext query
  rw [sentFor, unstaged]

/-- Unless a sink fails, the sinks in memory collect what is sent to them. -/
theorem Sound.collected_apply
    (sound : session.Sound)
    {changes : List Change}
    (fair : session.failsAtSink changes = false)
    {sink : SinkId}
    {newest : List Event}
    (memory : session.services.outlets.sinks[sink]? = some (.memory newest)) :
    (session.call (.apply changes)).services.outlets.collected sink =
      session.services.outlets.collected sink ++
        session.sentTo sink (.apply changes) := by
  obtain ⟨outcome, later, run, called, ends⟩ := sound.apply_ends changes
  rw [failsAtSink, run] at fair
  rw [called, sentTo]
  cases ends with
  | unresolved error catalog unstaged =>
      rw [sentFor_of_unstaged unstaged]
      simp
  | refused error catalog steps unstaged =>
      rw [sentFor_of_unstaged unstaged]
      simp
  | unsent error catalog steps outlets counters staged grows ofSink
        distrusted =>
      have fine : error.isOfSink = false := fair
      rw [ofSink] at fine
      cases fine
  | committed report catalog steps outlets counters staged grows received
        counted =>
      rw [sentFor_of_staged staged]
      exact received.collected memory

/-- The report of a batch counts the rows that enter and leave. -/
theorem Sound.tally_apply
    (sound : session.Sound)
    {changes : List Change}
    {report : BatchReport}
    (succeeds : (session.engine.apply changes session.services).1 =
      .ok report) :
    tally (session.sentByAll (.apply changes)) =
      (report.emerged, report.deleted) := by
  obtain ⟨outcome, later, run, _, ends⟩ := sound.apply_ends changes
  rw [run] at succeeds
  cases succeeds
  cases ends with
  | committed report catalog steps outlets counters staged grows received
        counted =>
      rw [sentByAll, sentFor_of_staged staged]
      exact counted

/-! ## Rows of a pattern -/

/-- The pattern has the row over the committed graph. -/
def Shows (session : Session) (pattern : Pattern) (row : Row) : Prop :=
  pattern.Yields session.services.catalog session.services.graph
    (fun _ => .permanent) row

/-- Asking for the rows of a pattern succeeds and lists each of them once. -/
theorem Sound.run_rows
    (sound : session.Sound)
    {pattern : Pattern}
    (faultless : pattern.fault? = none)
    (known : pattern.Known session.services.catalog) :
    ∃ rows later, Engine.rows pattern session.services = (.ok rows, later) ∧
      Copies.Of (rows.count ·) (session.Shows pattern) := by
  obtain ⟨plan, catalog, planned, grows, implements, _⟩ :=
    Plan.run_ofPattern faultless session.services.catalog
  obtain ⟨counters, run⟩ :=
    Engine.rows_eq_ok sound.graph planned implements.wellFormed
  refine ⟨plan.rows session.services.graph, _, run, ?_⟩
  refine Copies.of_nodup (implements.wellFormed.nodup_rows sound.graph)
    fun row => ?_
  rw [implements.mem_rows_iff (Pattern.valid_of_fault? faultless) sound.graph,
    Shows]
  exact (known.yields_iff grows).symm

end Session

/-- Planning a standing query makes the names of its pattern known. -/
theorem StandingPlan.Implements.known
    {plan : StandingPlan}
    {pattern : Pattern}
    {catalog : Catalog}
    (implements : plan.Implements pattern catalog)
    (valid : pattern.Valid) :
    pattern.Known catalog := by
  obtain ⟨relation, rest, split⟩ := List.exists_cons_of_ne_nil valid.nonempty
  have start : ⟨0, .additions⟩ ∈ Relation.differences 0 pattern.relations := by
    rw [split]
    exact .head _
  obtain ⟨_, _, first⟩ := exists_right_of_forall₂ implements start
  exact Pattern.known_of_implements first.plan

namespace Session

variable {session : Session} {query : StandingQuery} {pattern : Pattern}

/-- What leaves the rows over the committed graph alone leaves the rows of a
standing query alone. -/
theorem Sound.shows_call
    (sound : session.Sound)
    (maintains : session.Maintains query pattern)
    (valid : pattern.Valid)
    {call : Call}
    (same : ∀ row,
      pattern.Yields session.services.catalog (session.call call).services.graph
        (fun _ => .permanent) row ↔
          pattern.Yields session.services.catalog session.services.graph
            (fun _ => .permanent) row)
    (row : Row) :
    session.Shows pattern row ↔ (session.call call).Shows pattern row := by
  rw [Shows, Shows, ← same]
  exact (maintains.2.known valid).yields_iff (sound.extends_call call)

/-- The events that a batch sends for a standing query lead from the rows before
the batch to the rows after it. -/
theorem Sound.replay_apply
    (sound : session.Sound)
    (maintains : session.Maintains query pattern)
    (valid : pattern.Valid)
    {changes : List Change}
    (fair : session.failsAtSink changes = false)
    {copies : Copies}
    (of : copies.Of (session.Shows pattern)) :
    ∃ later,
      copies.replay (session.sentFor query (.apply changes)) = some later ∧
      later.Of ((session.call (.apply changes)).Shows pattern) := by
  have known := maintains.2.known valid
  obtain ⟨outcome, after, run, called, ends⟩ := sound.apply_ends changes
  rw [failsAtSink, run] at fair
  rw [called, sentFor]
  cases ends with
  | unresolved error catalog unstaged grows =>
      rw [unstaged]
      refine ⟨copies, rfl, of.congr fun row => ?_⟩
      exact known.yields_iff grows
  | refused error catalog steps unstaged grows =>
      rw [unstaged]
      refine ⟨copies, rfl, of.congr fun row => ?_⟩
      have staged := sound.graph.stageAll steps
      rw [Shows, Shows, staged.yields_rollback valid,
        sound.graph.yields_stageAll steps valid]
      exact known.yields_iff grows
  | unsent error catalog steps outlets counters staged grows ofSink
        distrusted =>
      have fine : error.isOfSink = false := fair
      rw [ofSink] at fine
      cases fine
  | committed report catalog steps outlets counters staged grows received
        counted =>
      rw [staged]
      have stagedSound := sound.graph.stageAll steps
      obtain ⟨later, replayed, ofLater⟩ :=
        maintains.2.replay_events valid stagedSound
        (of.congr fun row => (sound.graph.yields_stageAll steps valid).symm)
      refine ⟨later, replayed, ofLater.congr fun row => ?_⟩
      rw [Shows, stagedSound.yields_commit valid]
      exact known.yields_iff grows

end Session

end DeltaGraph
