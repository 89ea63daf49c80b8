import DeltaGraph.Proofs.Maintenance.Sent

/-!
# Safe replay

The events that a batch sends for a standing query can be applied one by one to
the rows from before the batch.  No row leaves that is not there, there are
never more than two copies of a row, and once the additions and removals of a
relation have been applied there is at most one copy of every row.
-/

namespace DeltaGraph

namespace Session

/-- A standing query stays registered through calls that do not unsubscribe
it. -/
theorem Maintains.run
    {session : Session}
    (sound : session.Sound)
    {query : StandingQuery}
    {pattern : Pattern}
    (maintains : session.Maintains query pattern)
    {calls : List Call}
    (kept : Call.unsubscribe query.handle ∉ calls) :
    (session.run calls).Maintains query pattern := by
  induction calls generalizing session with
  | nil => exact maintains
  | cons call rest inductionHypothesis =>
      rw [List.mem_cons, not_or] at kept
      have still := maintains.call sound fun same => kept.1 same.symm
      exact inductionHypothesis (sound.call call) still kept.2

/-- The stream of a standing query can be replayed safely. -/
theorem replays_safely
    (config : Config)
    (before : List Call)
    {registration : Call}
    {pattern : Pattern}
    (asked : registration.pattern? = some pattern)
    {handle : Handle}
    (accepted : ((start config).run before).handle? registration = some handle)
    (calls : List Call)
    (kept : Call.unsubscribe handle ∉ calls)
    (changes : List Change)
    {report : BatchReport} :
    let now := (((start config).run before).call registration).run calls
    (now.engine.apply changes now.services).1 = .ok report →
    ∃ query ∈ now.engine.queries, query.handle = handle ∧
      (∀ sink, registration = .subscribeSink pattern sink → query.sink = sink) ∧
      (∀ newest,
        now.services.outlets.sinks[query.sink]? = some (Sink.memory newest) →
        (now.call (.apply changes)).services.outlets.collected query.sink =
          now.services.outlets.collected query.sink ++
            now.sentTo query.sink (.apply changes)) ∧
      ∃ rows after staged,
        Engine.rows pattern now.services = (.ok rows, after) ∧
        now.services.staged? changes = some staged ∧
        now.sent handle (.apply changes) = query.plan.events staged ∧
        Copies.Safe (rows.count ·) (query.plan.events staged) ∧
        ∀ index ≤ pattern.relations.length,
          query.plan.eventsBefore staged index <+: query.plan.events staged ∧
          ∃ copies,
            Copies.replay (rows.count ·)
              (query.plan.eventsBefore staged index) =
            some copies ∧ ∀ row, copies row ≤ 1 := by
  intro now succeeds
  obtain ⟨faultless, query, rfl, delivers, maintained⟩ :=
    maintains_of_handle? asked accepted
  have valid := Pattern.valid_of_fault? faultless
  have firstSound := ((sound_start config).run before).call registration
  have sound : now.Sound := firstSound.run calls
  have maintains : now.Maintains query pattern := maintained.run firstSound kept
  obtain ⟨rows, after, run, of⟩ :=
    sound.run_rows faultless (maintains.2.known valid)
  have fair : now.failsAtSink changes = false := by
    rw [failsAtSink, succeeds]
  obtain ⟨outcome, later, ran, _, ends⟩ := sound.apply_ends changes
  rw [ran] at succeeds
  cases succeeds
  cases ends with
  | committed report catalog steps outlets counters staged grows received
        counted =>
      have stagedSound := sound.graph.stageAll steps
      have ofStaged :
          Copies.Of (rows.count ·) (pattern.Yields now.services.catalog
            (now.services.graph.stageAll steps) fun _ => .permanent) :=
        of.congr fun row => (sound.graph.yields_stageAll steps valid).symm
      refine ⟨query, maintains.1, rfl, delivers, fun newest memory => ?_, rows,
        after, now.services.graph.stageAll steps, run, staged, ?_, ?_,
        fun index inside => ⟨?_, ?_⟩⟩
      · exact sound.collected_apply fair memory
      · rw [sound.sent_eq maintains.1, sentFor, staged]
        rfl
      · exact maintains.2.safe valid stagedSound ofStaged
      · exact maintains.2.prefix_eventsBefore _ index
      · obtain ⟨copies, replayed, ofCopies⟩ :=
          maintains.2.replay_eventsBefore valid stagedSound ofStaged inside
        exact ⟨copies, replayed, ofCopies.le_one⟩

/-- An edge that one batch removes and adds again gets a second copy for a
while. -/
theorem replays_safely_for_toggled_edge :
    let pattern : Pattern :=
      { declared := [⟨"a", none⟩, ⟨"b", none⟩]
        relations := [⟨"a", "b", some "knows", none⟩]
        predicates := [] }
    let opened := (start {}).run [.addSink (.memory [])]
    let edge : NewEdge := { source := ⟨1⟩, target := ⟨2⟩, type := some "knows" }
    let now := (opened.call (.subscribeSink pattern 0)).run [.apply [.add edge]]
    let changes : List Change := [.remove ⟨⟨1⟩, ⟨2⟩, some "knows"⟩, .add edge]
    let row : Row := ⟨[⟨1⟩, ⟨2⟩], [⟨0⟩]⟩
    opened.handle? (.subscribeSink pattern 0) = some 1 ∧
      (now.engine.apply changes now.services).1 =
        .ok { emerged := 1, deleted := 1, missing := 0, commit := ⟨0, 0, 1⟩ } ∧
      now.sent 1 (.apply changes) = [⟨.emerged, row⟩, ⟨.deleted, row⟩] ∧
      ∃ rows after, Engine.rows pattern now.services = (.ok rows, after) ∧
        Copies.Safe (rows.count ·) (now.sent 1 (.apply changes)) := by
  intro pattern opened edge now changes row
  have accepted : opened.handle? (.subscribeSink pattern 0) = some 1 := by
    decide +kernel
  have succeeds : (now.engine.apply changes now.services).1 = .ok
      { emerged := 1, deleted := 1, missing := 0, commit := ⟨0, 0, 1⟩ } := by
    decide +kernel
  have kept : Call.unsubscribe 1 ∉ [Call.apply [.add edge]] := by simp
  refine ⟨accepted, succeeds, by decide +kernel, ?_⟩
  obtain ⟨query, _, _, _, _, rows, after, staged, run, _, same, safe, _⟩ :=
    replays_safely {} [.addSink (.memory [])] rfl accepted [.apply [.add edge]]
      kept changes
      succeeds
  exact ⟨rows, after, run, same ▸ safe⟩

end Session

end DeltaGraph
