import DeltaGraph.Proofs.Execution.Delivery
import DeltaGraph.Sink

/-!
# What sinks receive

A sink in memory collects all events that it is sent, in order, and stays where
it is when other sinks are sent events or when sinks are flushed.  Sending
events and flushing fails only because of a sink.  Sinks in memory and callbacks
never fail, and files fail only if a write does.
-/

namespace DeltaGraph

/-- Whether an operation failed because of a sink. -/
def Error.isOfSink : Error → Bool
  | .refusedRow => true
  | .missingTarget => true
  | .file _ => true
  | _ => false

namespace Outlets

/-- The sinks in memory have collected the events that they were given, and
nothing else. -/
def Receives (outlets later : Outlets) (given : SinkId → List Event) : Prop :=
  ∀ (id : SinkId) (newest : List Event),
    outlets.sinks[id]? = some (Sink.memory newest) →
    later.sinks[id]? = some (Sink.memory ((given id).reverse ++ newest))

theorem Receives.refl (outlets : Outlets) :
    outlets.Receives outlets fun _ => [] :=
  fun _ _ found => found

/-- Events received one after the other are received in that order. -/
theorem Receives.trans
    {outlets middle later : Outlets}
    {given more : SinkId → List Event}
    (first : outlets.Receives middle given)
    (second : middle.Receives later more) :
    outlets.Receives later fun id => given id ++ more id := by
  intro id newest found
  have reached := second id _ (first id newest found)
  rwa [List.reverse_append, List.append_assoc]

/-- What a sink in memory collects is what it held and then what it receives. -/
theorem Receives.collected
    {outlets later : Outlets}
    {given : SinkId → List Event}
    (received : outlets.Receives later given)
    {id : SinkId}
    {newest : List Event}
    (found : outlets.sinks[id]? = some (Sink.memory newest)) :
    later.collected id = outlets.collected id ++ given id := by
  simp [Outlets.collected, found, received id newest found]

/-- The events for one sink. -/
def only (sink : SinkId) (events : List Event) (id : SinkId) : List Event :=
  if id = sink then events else []

theorem only_of_ne
    {sink id : SinkId}
    (different : id ≠ sink)
    (events : List Event) :
    only sink events id = [] := if_neg different

theorem only_nil (sink : SinkId) : only sink [] = fun _ => [] := by
  funext id
  rw [only, ite_self]

/-- Giving a sink some events is giving it the first, then the rest. -/
theorem only_cons (sink : SinkId) (event : Event) (rest : List Event) :
    only sink (event :: rest) =
      fun id => only sink [event] id ++ only sink rest id := by
  funext id
  unfold only
  split <;> rfl

/-- Events for a sink that is not in memory leave the sinks in memory alone, if
they leave the other sinks alone. -/
theorem receives_only
    {outlets later : Outlets}
    {id : SinkId}
    (kept : ∀ another, another ≠ id →
      later.sinks[another]? = outlets.sinks[another]?)
    (elsewhere : ∀ newest, outlets.sinks[id]? ≠ some (Sink.memory newest))
    (events : List Event) :
    outlets.Receives later (only id events) := by
  intro another newest found
  have different : another ≠ id := by
    rintro rfl
    exact elsewhere newest found
  rw [only_of_ne different, kept another different]
  exact found

theorem getElem?_insert_of_ne
    (sinks : Std.ExtTreeMap SinkId Sink)
    {id another : SinkId}
    (different : another ≠ id)
    (sink : Sink) :
    (sinks.insert id sink)[another]? = sinks[another]? := by
  rw [Std.ExtTreeMap.getElem?_insert, if_neg (by simpa using different.symm)]

/-- Whether a sink may refuse an event or fail to be flushed.  A file may if any
of the coming writes fails. -/
def canFail (outlets : Outlets) : Sink → Bool
  | .memory _ => false
  | .callback _ => false
  | .file .. => outlets.faults.any Option.isSome
  | .limited .. => true

/-- Sinks fail no more once fewer writes are to come. -/
theorem canFail_of_suffix
    {outlets later : Outlets}
    (fewer : later.faults <:+ outlets.faults)
    {sink : Sink}
    (reliable : outlets.canFail sink = false) :
    later.canFail sink = false := by
  cases sink with
  | file path format held =>
      rw [canFail, List.any_eq_false] at reliable ⊢
      exact fun fault coming => reliable fault (fewer.subset coming)
  | limited label remaining flushFails => cases reliable
  | _ => rfl

/-- None of the sinks with a property can fail. -/
def Trusts (outlets : Outlets) (trusted : SinkId → Prop) : Prop :=
  ∀ id, trusted id → ∀ sink, outlets.sinks[id]? = some sink →
    outlets.canFail sink = false

variable {trusted : SinkId → Prop}

/-- Trust is kept when a sink is replaced by one that cannot fail. -/
theorem Trusts.insert
    {outlets later : Outlets}
    (trusts : outlets.Trusts trusted)
    {id : SinkId}
    {sink : Sink}
    (inserted : later.sinks = outlets.sinks.insert id sink)
    (fewer : later.faults <:+ outlets.faults)
    (reliable : outlets.canFail sink = false) :
    later.Trusts trusted := by
  intro another isTrusted found present
  refine canFail_of_suffix fewer ?_
  rw [inserted] at present
  by_cases same : another = id
  · subst same
    rw [Std.ExtTreeMap.getElem?_insert_self] at present
    cases present
    exact reliable
  · rw [getElem?_insert_of_ne _ same] at present
    exact trusts another isTrusted found present

/-- Outlets with a trusted sink that can fail are not to be trusted. -/
theorem not_trusts
    {outlets : Outlets}
    {id : SinkId}
    (isTrusted : trusted id)
    {sink : Sink}
    (found : outlets.sinks[id]? = some sink)
    (fails : outlets.canFail sink = true) :
    ¬ outlets.Trusts trusted := by
  intro trusts
  rw [trusts id isTrusted sink found] at fails
  cases fails

/-- A write succeeds, or fails with a fault that was coming. -/
theorem attempt_cases (outlets : Outlets) :
    attempt outlets = (.ok (), { outlets with faults := outlets.faults.tail }) ∨
      ∃ fault, some fault ∈ outlets.faults ∧ attempt outlets =
        (.error (.file fault),
          { outlets with faults := outlets.faults.tail }) := by
  rw [attempt, run_bind_ok (run_get outlets)]
  cases coming : outlets.faults with
  | nil => exact .inl rfl
  | cons first rest =>
      cases first with
      | none => exact .inl rfl
      | some fault => exact .inr ⟨fault, .head _, rfl⟩

/-- A file does not take what cannot be written. -/
theorem canFail_file
    {outlets : Outlets}
    {fault : FileFault}
    (coming : some fault ∈ outlets.faults)
    (path : String)
    (format : LineFormat)
    (held : String) :
    outlets.canFail (.file path format held) = true :=
  List.any_eq_true.mpr ⟨some fault, coming, rfl⟩

/-- The action gives events to sinks, unless it fails because of a sink that is
not trusted. -/
def Gives
    (trusted : SinkId → Prop)
    (action : ExceptT Error (StateM Outlets) Unit)
    (given : SinkId → List Event) : Prop :=
  ∀ outlets, ∃ later, (outlets.Trusts trusted → later.Trusts trusted) ∧
    ((action outlets = (.ok (), later) ∧ outlets.Receives later given) ∨
      ∃ error, action outlets = (.error error, later) ∧ error.isOfSink = true ∧
        ¬ outlets.Trusts trusted)

/-- Two actions that give their events give those of the first, then those of
the second. -/
theorem Gives.bind {action next : ExceptT Error (StateM Outlets) Unit}
    {given more : SinkId → List Event} (first : Gives trusted action given)
    (second : Gives trusted next more) :
    Gives trusted (action >>= fun _ => next) fun id => given id ++ more id := by
  intro outlets
  obtain ⟨middle, keeps, ⟨run, received⟩ | ⟨error, run, ofSink, distrusted⟩⟩ :=
    first outlets
  · obtain ⟨later, keepsMore,
        ⟨runNext, receivedMore⟩ | ⟨error, runNext, ofSink, distrusted⟩⟩ :=
      second middle
    · exact ⟨later, keepsMore ∘ keeps,
        .inl ⟨(run_bind_ok run).trans runNext, received.trans receivedMore⟩⟩
    · exact ⟨later, keepsMore ∘ keeps,
        .inr ⟨error, (run_bind_ok run).trans runNext, ofSink,
          distrusted ∘ keeps⟩⟩
  · exact ⟨middle, keeps, .inr ⟨error, run_bind_error run, ofSink, distrusted⟩⟩

/-- A file that is written to may get events, unless the write fails. -/
theorem gives_file
    {outlets later : Outlets}
    {id : SinkId}
    (isTrusted : trusted id)
    {path held kept : String}
    {format : LineFormat}
    (found : outlets.sinks[id]? = some (.file path format held))
    {next : Unit → ExceptT Error (StateM Outlets) Unit}
    (run : next () { outlets with faults := outlets.faults.tail } =
      (.ok (), later))
    (inserted :
      later.sinks = outlets.sinks.insert id (.file path format kept))
    (rest : later.faults = outlets.faults.tail)
    (events : List Event) :
    ∃ later, (outlets.Trusts trusted → later.Trusts trusted) ∧
      (((attempt >>= next) outlets = (.ok (), later) ∧
          outlets.Receives later (only id events)) ∨
        ∃ error, (attempt >>= next) outlets = (.error error, later) ∧
          error.isOfSink = true ∧ ¬ outlets.Trusts trusted) := by
  obtain wrote | ⟨fault, coming, failed⟩ := attempt_cases outlets
  · refine ⟨later, fun trusts => ?_, .inl ⟨(run_bind_ok wrote).trans run, ?_⟩⟩
    · have reliable : outlets.canFail (.file path format held) = false :=
        trusts id isTrusted _ found
      exact trusts.insert inserted (rest ▸ List.tail_suffix _) reliable
    · refine receives_only (fun _ different => ?_) (by simp [found]) events
      rw [inserted, getElem?_insert_of_ne _ different]
  · have distrusted := not_trusts isTrusted found
      (canFail_file coming path format held)
    exact ⟨_, fun trusts => absurd trusts distrusted,
      .inr ⟨_, run_bind_error failed, rfl, distrusted⟩⟩

/-- An event that is delivered to a sink is for this sink. -/
theorem gives_append
    {id : SinkId}
    (isTrusted : trusted id)
    (event : Event) :
    Gives trusted (append id event) (only id [event]) := by
  intro outlets
  rw [append, run_bind_ok (run_get outlets)]
  cases found : outlets.sinks[id]? with
  | none =>
      refine ⟨_, fun trusts => trusts, .inl ⟨rfl, ?_⟩⟩
      exact receives_only (fun _ _ => rfl) (by simp [found]) [event]
  | some sink =>
      cases sink with
      | memory newest =>
          refine ⟨_, ?_, .inl ⟨rfl, ?_⟩⟩
          · exact fun trusts => trusts.insert rfl (List.suffix_refl _) rfl
          · intro another others present
            by_cases same : another = id
            · subst same
              rw [found] at present
              cases present
              simp [only]
            · rw [only_of_ne same, getElem?_insert_of_ne _ same]
              exact present
      | callback label =>
          refine ⟨_, ?_, .inl ⟨rfl, ?_⟩⟩
          · exact fun trusts => trusts
          · exact receives_only (fun _ _ => rfl) (by simp [found]) [event]
      | file path format held =>
          exact gives_file isTrusted found rfl rfl rfl [event]
      | limited label remaining flushFails =>
          have distrusted := not_trusts isTrusted found rfl
          cases remaining with
          | zero =>
              exact ⟨_, fun trusts => absurd trusts distrusted,
                .inr ⟨_, rfl, rfl, distrusted⟩⟩
          | succ remaining =>
              refine ⟨_, fun trusts => absurd trusts distrusted, .inl ⟨rfl, ?_⟩⟩
              exact receives_only
                (fun _ different => getElem?_insert_of_ne _ different _)
                (by simp [found]) [event]

/-- A flush gives a sink no further events. -/
theorem gives_flush
    {id : SinkId}
    (isTrusted : trusted id) :
    Gives trusted (flush id) fun _ => [] := by
  intro outlets
  rw [flush, run_bind_ok (run_get outlets)]
  cases found : outlets.sinks[id]? with
  | none => exact ⟨_, fun trusts => trusts, .inl ⟨rfl, .refl outlets⟩⟩
  | some sink =>
      cases sink with
      | file path format held =>
          rw [← only_nil id]
          exact gives_file isTrusted found rfl rfl rfl []
      | limited label remaining flushFails =>
          have distrusted := not_trusts isTrusted found rfl
          cases flushFails with
          | true =>
              exact ⟨_, fun trusts => absurd trusts distrusted,
                .inr ⟨_, rfl, rfl, distrusted⟩⟩
          | false =>
              exact ⟨_, fun trusts => absurd trusts distrusted,
                .inl ⟨rfl, fun _ _ present => present⟩⟩
      | memory newest =>
          exact ⟨_, fun trusts => trusts, .inl ⟨rfl, .refl outlets⟩⟩
      | callback label =>
          exact ⟨_, fun trusts => trusts, .inl ⟨rfl, .refl outlets⟩⟩

/-- Events that are delivered to a sink one after another are for this sink. -/
theorem gives_all {id : SinkId} (isTrusted : trusted id) (events : List Event) :
    Gives trusted (Delivery.all (append id) events) (only id events) := by
  induction events with
  | nil =>
      rw [only_nil]
      exact fun outlets =>
        ⟨outlets, fun trusts => trusts, .inl ⟨rfl, .refl outlets⟩⟩
  | cons event rest inductionHypothesis =>
      rw [only_cons]
      exact (gives_append isTrusted event).bind inductionHypothesis

end Outlets

end DeltaGraph
