import DeltaGraph.Proofs.Maintenance.Sent

/-!
# Exact maintenance

From its registration on, the rows of a standing query are those that it had,
with the rows that emerged and without those that were deleted.  This holds
through any calls except that others must not commit a batch behind the engine's
back, and that sinks must neither refuse rows nor fail to be flushed: a batch
that fails at one sink has already reached others.
-/

namespace DeltaGraph

namespace Session

/-- Whether the standing query with a handle is maintained through a call. -/
def keeps (session : Session) (handle : Handle) : Call → Bool
  | .apply changes => !session.failsAtSink changes
  | .unsubscribe other => other != handle
  | .commit => false
  | _ => true

/-- Whether the standing query with a handle is maintained through all calls. -/
def keepsAll (handle : Handle) : Session → List Call → Bool
  | _, [] => true
  | session, call :: rest =>
      session.keeps handle call && (session.call call).keepsAll handle rest

/-- The events that calls send for the standing query with a handle. -/
def sentAll (handle : Handle) : Session → List Call → List Event
  | _, [] => []
  | session, call :: rest =>
      session.sent handle call ++ (session.call call).sentAll handle rest

variable {session : Session} {query : StandingQuery} {pattern : Pattern}
  {copies : Copies}

theorem ne_unsubscribe_of_keeps {handle : Handle} {call : Call}
    (kept : session.keeps handle call = true) : call ≠ .unsubscribe handle := by
  rintro rfl
  simp [keeps] at kept

/-- The events of one call lead from the rows before the call to those after
it. -/
theorem Sound.replay_call
    (sound : session.Sound)
    (maintains : session.Maintains query pattern)
    (valid : pattern.Valid)
    {call : Call}
    (kept : session.keeps query.handle call = true)
    (of : copies.Of (session.Shows pattern)) :
    ∃ later, copies.replay (session.sent query.handle call) = some later ∧
      later.Of ((session.call call).Shows pattern) := by
  rw [sound.sent_eq maintains.1]
  -- No call but a batch sends anything.
  have silent (quiet : session.sentFor query call = [])
      (same : ∀ row,
        pattern.Yields session.services.catalog
          (session.call call).services.graph
          (fun _ => .permanent) row ↔
        pattern.Yields session.services.catalog session.services.graph
          (fun _ => .permanent) row) :
      ∃ later, copies.replay (session.sentFor query call) = some later ∧
        later.Of ((session.call call).Shows pattern) := by
    rw [quiet]
    exact ⟨copies, rfl, of.congr (sound.shows_call maintains valid same)⟩
  have untouched (quiet : session.sentFor query call = [])
      (untouched : call.touchesGraph = false) :
      ∃ later, copies.replay (session.sentFor query call) = some later ∧
        later.Of ((session.call call).Shows pattern) := by
    apply silent quiet
    intro row
    rw [(session.grows_call untouched).graph]
  cases call with
  | apply changes =>
      apply sound.replay_apply maintains valid _ of
      simpa [keeps] using kept
  | stage step =>
      apply silent rfl
      intro row
      exact sound.graph.yields_stageAll [step] valid
  | rollback =>
      apply silent rfl
      intro row
      exact sound.graph.yields_rollback valid
  | commit => cases kept
  | _ => exact untouched rfl rfl

/-- The events of a run lead from the rows before the run to those after it. -/
theorem Sound.replay_run
    (sound : session.Sound)
    (maintains : session.Maintains query pattern)
    (valid : pattern.Valid)
    {calls : List Call}
    (kept : session.keepsAll query.handle calls = true)
    (of : copies.Of (session.Shows pattern)) :
    (session.run calls).Maintains query pattern ∧
      ∃ later, copies.replay (session.sentAll query.handle calls) = some later ∧
        later.Of ((session.run calls).Shows pattern) := by
  induction calls generalizing session copies with
  | nil => exact ⟨maintains, copies, rfl, of⟩
  | cons call rest inductionHypothesis =>
      rw [keepsAll, Bool.and_eq_true] at kept
      obtain ⟨keptHere, keptLater⟩ := kept
      obtain ⟨middle, replayed, ofMiddle⟩ :=
        sound.replay_call maintains valid keptHere of
      have still := maintains.call sound (ne_unsubscribe_of_keeps keptHere)
      obtain ⟨stillLater, later, replayedLater, ofLater⟩ :=
        inductionHypothesis (sound.call call) still keptLater ofMiddle
      refine ⟨stillLater, later, ?_, ofLater⟩
      rw [sentAll, Copies.replay_append replayed, replayedLater]

/-- Maintenance is exact: from its registration on, a standing query sends the
difference between the rows of its pattern then and now.  Sinks in memory
collect what is sent, the report of a batch counts it, and no batch fails at a
sink if none of the sinks can fail. -/
theorem maintains_rows
    (config : Config)
    (before : List Call)
    {pattern : Pattern}
    {sink : SinkId}
    {handle : Handle}
    (accepted :
      ((start config).run before).handle? (.subscribeSink pattern sink) =
        some handle)
    (calls : List Call)
    (kept :
      (((start config).run before).call (.subscribeSink pattern sink)).keepsAll
        handle calls = true) :
    let first := ((start config).run before).call (.subscribeSink pattern sink)
    let now := first.run calls
    let events := first.sentAll handle calls
    (∃ query ∈ now.engine.queries, query.handle = handle ∧ query.sink = sink) ∧
    (∃ rowsThen afterThen rowsNow afterNow,
      Engine.rows pattern first.services = (.ok rowsThen, afterThen) ∧
      Engine.rows pattern now.services = (.ok rowsNow, afterNow) ∧
      ∀ row, rowsThen.count row + events.count ⟨.emerged, row⟩ =
        rowsNow.count row + events.count ⟨.deleted, row⟩) ∧
    ∀ changes,
      (now.engine.Trusts now.services.outlets →
        now.failsAtSink changes = false) ∧
      (now.failsAtSink changes = false →
        ∀ other newest,
          now.services.outlets.sinks[other]? = some (Sink.memory newest) →
          (now.call (.apply changes)).services.outlets.collected other =
            now.services.outlets.collected other ++
              now.sentTo other (.apply changes)) ∧
      ∀ report, (now.engine.apply changes now.services).1 = .ok report →
        report.emerged =
          (now.sentByAll (.apply changes)).countP (·.kind = .emerged) ∧
        report.deleted =
          (now.sentByAll (.apply changes)).countP (·.kind = .deleted) := by
  intro first now events
  have sound : first.Sound := ((sound_start config).run before).call _
  obtain ⟨faultless, query, rfl, delivers, maintained⟩ :=
    maintains_of_handle? rfl accepted
  have valid := Pattern.valid_of_fault? faultless
  obtain ⟨rowsThen, afterThen, runThen, ofThen⟩ :=
    sound.run_rows faultless (maintained.2.known valid)
  obtain ⟨maintainedNow, later, replayed, ofLater⟩ :=
    sound.replay_run maintained valid kept ofThen
  have soundNow : now.Sound := sound.run calls
  obtain ⟨rowsNow, afterNow, runNow, ofNow⟩ :=
    soundNow.run_rows faultless (maintainedNow.2.known valid)
  refine ⟨⟨query, maintainedNow.1, rfl, delivers sink rfl⟩,
    ⟨rowsThen, afterThen, rowsNow, afterNow, runThen, runNow, fun row => ?_⟩,
    fun changes => ⟨fun trusts => ?_, fun fair other newest memory => ?_,
      fun report succeeds => ?_⟩⟩
  · have balance := Copies.count_of_replay replayed row
    rwa [ofLater.eq ofNow] at balance
  · exact soundNow.not_failsAtSink trusts changes
  · exact soundNow.collected_apply fair memory
  · have counted := soundNow.tally_apply succeeds
    exact ⟨(congrArg Prod.fst counted).symm, (congrArg Prod.snd counted).symm⟩

/-- An edge that is added, and then removed and added again in one batch, after
a batch that removes it by a type that is not known. -/
theorem maintains_rows_of_toggled_edge :
    let pattern : Pattern :=
      { declared := [⟨"a", none⟩, ⟨"b", some "person"⟩]
        relations := [⟨"a", "b", some "knows", none⟩, ⟨"a", "b", none, none⟩]
        predicates := [] }
    let opened := (start {}).run [.addSink (.memory [])]
    let first := opened.call (.subscribeSink pattern 0)
    let edge : NewEdge :=
      { source := ⟨1⟩, target := ⟨2⟩, type := some "knows",
        targetType := some "person" }
    let calls : List Call :=
      [.apply [.add edge], .apply [.remove ⟨⟨1⟩, ⟨2⟩, some "likes"⟩],
        .apply
          [.remove ⟨⟨1⟩, ⟨2⟩, some "knows"⟩, .add edge,
            .remove ⟨⟨1⟩, ⟨2⟩, some "knows"⟩]]
    opened.handle? (.subscribeSink pattern 0) = some 1 ∧
      first.keepsAll 1 calls = true ∧
      ∃ rowsThen afterThen rowsNow afterNow,
        Engine.rows pattern first.services = (.ok rowsThen, afterThen) ∧
        Engine.rows pattern (first.run calls).services =
          (.ok rowsNow, afterNow) ∧
        ∀ row,
          rowsThen.count row + (first.sentAll 1 calls).count ⟨.emerged, row⟩ =
          rowsNow.count row +
            (first.sentAll 1 calls).count ⟨.deleted, row⟩ := by
  intro pattern opened first edge calls
  have accepted : opened.handle? (.subscribeSink pattern 0) = some 1 := by
    decide +kernel
  have kept : first.keepsAll 1 calls = true := by decide +kernel
  exact ⟨accepted, kept,
    (maintains_rows {} [.addSink (.memory [])] accepted calls kept).2.1⟩

/-- A sink that takes the rows of another query but cannot be flushed undoes the
batch after the events have been sent. -/
theorem emerges_without_row_if_flush_fails :
    let pattern : Pattern :=
      { declared := [⟨"a", none⟩, ⟨"b", none⟩]
        relations := [⟨"a", "b", none, none⟩]
        predicates := [] }
    let first := (start {}).run
      [.addSink (.memory []), .addSink (.limited "x" 10 true),
        .subscribeSink pattern 0]
    let now := first.run [.subscribeSink pattern 1]
    let changes : List Change := [.add { source := ⟨1⟩, target := ⟨2⟩ }]
    let last := now.call (.apply changes)
    let row : Row := ⟨[⟨1⟩, ⟨2⟩], [⟨0⟩]⟩
    first.services.graph.isPending = false ∧
      ((now.engine.apply changes now.services).1.map fun _ => ()) =
        .error .missingTarget ∧
      last.services.outlets.log = [.flush "x", .event "x" ⟨.emerged, row⟩] ∧
      (Engine.rows pattern first.services).1.toOption = some [] ∧
      (Engine.rows pattern last.services).1.toOption = some [] ∧
      last.services.outlets.collected 0 = [⟨.emerged, row⟩] ∧
      ([] : List Row).count row +
        (last.services.outlets.collected 0).count ⟨.emerged, row⟩ ≠
        ([] : List Row).count row +
          (last.services.outlets.collected 0).count ⟨.deleted, row⟩ := by
  decide +kernel

end Session

end DeltaGraph
