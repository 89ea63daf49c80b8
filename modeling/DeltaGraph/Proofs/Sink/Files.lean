import DeltaGraph.Proofs.Sink
import DeltaGraph.Sink.Lines

/-!
# What files hold

A line shows its event, and a text of lines shows its events: reading them back
gives the events in order.
-/

namespace DeltaGraph

/-! ## Parts of a line -/

@[simp] theorem after?_append (beginning rest : List Char) :
    after? beginning (beginning ++ rest) = some rest := by
  induction beginning with
  | nil => rfl
  | cons first beginning inductionHypothesis =>
      simpa [after?] using inductionHypothesis

/-- No label begins with another one. -/
theorem RowKind.read?_label (kind : RowKind) (rest : List Char) :
    RowKind.read? (kind.label.toList ++ rest) = some (kind, rest) := by
  cases kind <;> rfl

/-- Reading each of the shown items gives the items. -/
theorem mapM_map_of_reads {α β : Type} {write : α → β} {read? : β → Option α}
    (reads : ∀ item, read? (write item) = some item) {items : List α} :
    (items.map write).mapM read? = some items := by
  induction items with
  | nil => rfl
  | cons first rest inductionHypothesis => simp [reads, inductionHypothesis]

/-- A character of joined texts stands in the separator or in one of the
texts. -/
theorem mem_intercalate
    {α : Type}
    {separator : List α}
    {texts : List (List α)}
    {item : α}
    (member : item ∈ separator.intercalate texts) :
    item ∈ separator ∨ ∃ text ∈ texts, item ∈ text := by
  induction texts with
  | nil => cases member
  | cons first rest inductionHypothesis =>
      cases rest with
      | nil => exact .inr ⟨first, .head _, by simpa using member⟩
      | cons second rest =>
          rw [List.intercalate_cons_cons, List.mem_append, List.mem_append]
            at member
          rcases member with (here | between) | later
          · exact .inr ⟨first, .head _, here⟩
          · exact .inl between
          · refine (inductionHypothesis later).imp_right ?_
            rintro ⟨text, listed, inside⟩
            exact ⟨text, .tail _ listed, inside⟩

namespace Id

variable {kind : Numbered}

/-- The decimal digits of a number. -/
def digits (id : Id kind) : List Char := Nat.toDigits 10 id.number

theorem toList_text (id : Id kind) : id.text.toList = id.digits := by
  rw [text, Nat.toString_eq_repr, Nat.toList_repr, digits]

theorem isDigit_of_mem_digits
    {id : Id kind}
    {char : Char}
    (member : char ∈ id.digits) :
    char.isDigit = true :=
  Nat.isDigit_of_mem_toDigits (by decide) (by decide) member

/-- The digits of a number are read back as the number. -/
theorem ofDigits?_digits (id : Id kind) : ofDigits? id.digits = some id := by
  have filled : id.digits.isEmpty = false := by
    rw [List.isEmpty_eq_false_iff]
    exact Nat.toDigits_ne_nil
  have digital : id.digits.all Char.isDigit = true :=
    List.all_eq_true.mpr fun _ => isDigit_of_mem_digits
  have number : Nat.ofDigitChars 10 id.digits 0 = id.number :=
    Nat.ofDigitChars_toDigits (by decide) (by decide)
  simp [ofDigits?, filled, digital, number]

theorem toList_numberList (ids : List (Id kind)) :
    (numberList ids).toList = [','].intercalate (ids.map digits) := by
  rw [numberList, String.toList_intercalate, List.map_map]
  exact congrArg _ (List.map_congr_left fun id _ => id.toList_text)

theorem ofList?_of_ne_nil {chars : List Char} (filled : chars ≠ []) :
    ofList? chars = (chars.splitOn ',').mapM (@ofDigits? kind) := by
  cases chars with
  | nil => exact absurd rfl filled
  | cons char chars => rfl

theorem not_mem_digits
    {id : Id kind}
    {char : Char}
    (mark : char.isDigit = false) :
    char ∉ id.digits := by
  intro member
  rw [isDigit_of_mem_digits member] at mark
  cases mark

/-- A list of numbers between commas is read back as the list. -/
theorem ofList?_numberList (ids : List (Id kind)) :
    ofList? (numberList ids).toList = some ids := by
  cases ids with
  | nil => rfl
  | cons first rest =>
      have split : (numberList (first :: rest)).toList.splitOn ',' =
          (first :: rest).map digits := by
        rw [toList_numberList]
        refine List.splitOn_intercalate ',' (fun text member => ?_)
          (List.cons_ne_nil _ _)
        obtain ⟨id, _, rfl⟩ := List.mem_map.mp member
        exact not_mem_digits rfl
      have filled : (numberList (first :: rest)).toList ≠ [] := by
        intro empty
        rw [empty, List.map_cons] at split
        exact Nat.toDigits_ne_nil (List.cons.inj split).1.symm
      rw [ofList?_of_ne_nil filled, split]
      exact mapM_map_of_reads fun id => id.ofDigits?_digits

/-- A list of numbers is written with digits and commas. -/
theorem mem_numberList
    {ids : List (Id kind)}
    {char : Char}
    (member : char ∈ (numberList ids).toList) :
    char = ',' ∨ char.isDigit = true := by
  rw [toList_numberList] at member
  rcases mem_intercalate member with separator | ⟨text, listed, inside⟩
  · exact .inl (List.mem_singleton.mp separator)
  · obtain ⟨id, _, rfl⟩ := List.mem_map.mp listed
    exact .inr (isDigit_of_mem_digits inside)

/-- A bracketed list of numbers is read back up to its closing bracket. -/
theorem readList?_numberList (ids : List (Id kind)) (rest : List Char) :
    readList? ('[' :: ((numberList ids).toList ++ ']' :: rest)) =
      some (ids, rest) := by
  have inside : ∀ char ∈ (numberList ids).toList, (char != ']') = true := by
    intro char member
    refine bne_iff_ne.mpr ?_
    rintro rfl
    rcases mem_numberList member with comma | digit
    · cases comma
    · cases digit
  have opens : after? ['['] ('[' :: ((numberList ids).toList ++ ']' :: rest)) =
      some ((numberList ids).toList ++ ']' :: rest) := after?_append ['['] _
  have closes : after? [']'] (']' :: rest) = some rest :=
    after?_append [']'] rest
  rw [readList?, opens]
  simp only [Option.bind_eq_bind, Option.bind_some]
  rw [List.takeWhile_append_of_pos inside, List.dropWhile_append_of_pos inside]
  simp [ofList?_numberList, closes]

end Id

/-! ## Lines -/

/-- The parts of a line and the fixed texts around them. -/
theorem LineFormat.toList_line (format : LineFormat) (event : Event) :
    (format.line event).toList =
      format.layout.opening.toList ++ (event.kind.label.toList ++
        (format.layout.beforeVertices.toList ++
          ('[' :: ((numberList event.row.vertices).toList ++ ']' ::
            (format.layout.beforeEdges.toList ++
              ('[' :: ((numberList event.row.edges).toList ++ ']' ::
                format.layout.closing.toList))))))) := by
  cases format
  case text => simp [LineFormat.line, Event.text, Row.text, LineFormat.layout]
  case json => simp [LineFormat.line, Event.json, LineFormat.layout]

/-- Each line format reads its own lines back. -/
theorem LineFormat.read?_line (format : LineFormat) (event : Event) :
    format.layout.read? (format.line event).toList = some event := by
  rw [LineFormat.toList_line]
  simp [LineLayout.read?, RowKind.read?_label, Id.readList?_numberList]

/-- A line has no line end inside. -/
theorem LineFormat.not_mem_line (format : LineFormat) (event : Event) :
    '\n' ∉ (format.line event).toList := by
  have unlisted {kind : Numbered} (ids : List (Id kind)) :
      '\n' ∉ (numberList ids).toList := by
    intro member
    rcases Id.mem_numberList member with comma | digit
    · cases comma
    · cases digit
  have label : '\n' ∉ event.kind.label.toList := by cases event.kind <;> decide
  rw [LineFormat.toList_line]
  cases format <;> simp [LineFormat.layout, unlisted, label]

theorem LineFormat.toList_lines (format : LineFormat) (events : List Event) :
    (format.lines events).toList =
      ['\n'].intercalate
        (events.map (fun event => (format.line event).toList) ++ [[]]) := by
  induction events with
  | nil => rfl
  | cons first rest inductionHypothesis =>
      have more :
          rest.map (fun event => (format.line event).toList) ++ [[]] ≠ [] := by
        simp
      rw [List.map_cons, List.cons_append, List.intercalate_cons_of_ne_nil more,
        ← inductionHypothesis]
      simp [lines]

/-- Events appended one after the other are written one after the other. -/
theorem LineFormat.lines_append
    (format : LineFormat)
    (events more : List Event) :
    format.lines (events ++ more) =
      format.lines events ++ format.lines more := by
  simp [lines]

/-- The lines of events show the events, in order. -/
theorem LineFormat.events?_lines (format : LineFormat) (events : List Event) :
    format.events? (format.lines events) = some events := by
  have split : (format.lines events).toList.splitOn '\n' =
      events.map (fun event => (format.line event).toList) ++ [[]] := by
    rw [toList_lines]
    refine List.splitOn_intercalate '\n' (fun text member => ?_) (by simp)
    rw [List.mem_append, List.mem_singleton, List.mem_map] at member
    rcases member with ⟨event, _, rfl⟩ | rfl
    · exact format.not_mem_line event
    · exact List.not_mem_nil
  rw [events?, split, List.reverse_append, List.reverse_singleton,
    List.singleton_append]
  simp only [List.reverse_reverse]
  exact mapM_map_of_reads format.read?_line

example :
    LineFormat.text.events? "EMERGED v=[1,20] e=[7]\nDELETED v=[] e=[]\n" =
      some [⟨.emerged, ⟨[⟨1⟩, ⟨20⟩], [⟨7⟩]⟩⟩, ⟨.deleted, ⟨[], []⟩⟩] := by
  decide +kernel

/-! ## Files -/

/-- What is done to a sink that appends to a file. -/
inductive FileStep
  | append (event : Event)
  | flush

namespace FileStep

/-- The event that is appended. -/
def event? : FileStep → Option Event
  | append event => some event
  | flush => none

/-- Does the step to a sink. -/
def run (id : SinkId) : FileStep → ExceptT Error (StateM Outlets) Unit
  | append event => Outlets.append id event
  | flush => Outlets.flush id

/-- Does the steps to a sink one after another. -/
def runAll (id : SinkId) : List FileStep → ExceptT Error (StateM Outlets) Unit
  | [] => pure ()
  | step :: rest => do
      step.run id
      runAll id rest

end FileStep

namespace Outlets

/-- The sink appends to the file with a shortest path, which exists and together
with what the sink holds back has the contents. -/
def WritesTo
    (outlets : Outlets)
    (id : SinkId)
    (path : String)
    (format : LineFormat)
    (contents : String) : Prop :=
  ∃ written held, outlets.sinks[id]? = some (.file path format held) ∧
    outlets.files[path]? = some written ∧ written ++ held = contents

variable {outlets : Outlets} {id : SinkId} {path contents : String}
  {format : LineFormat}

/-- An event that is appended is held back, unless that fails. -/
theorem run_append_file
    {held : String}
    (sink : outlets.sinks[id]? = some (.file path format held))
    (event : Event) :
    append id event outlets =
      (attempt >>= fun _ =>
        put id (.file path format (held ++ format.line event ++ "\n")))
          outlets := by
  rw [append, run_bind_ok (run_get outlets), sink]

/-- A flush writes what is held back, unless that fails. -/
theorem run_flush_file
    {held : String}
    (sink : outlets.sinks[id]? = some (.file path format held)) :
    flush id outlets =
      (attempt >>= fun _ => do
        write path held
        put id (.file path format "")) outlets := by
  rw [flush, run_bind_ok (run_get outlets), sink]

/-- A step that succeeds adds the line of the event that it appends to the
contents, if it appends one.  It fails only if a write was to fail. -/
theorem WritesTo.run
    (writes : outlets.WritesTo id path format contents)
    (step : FileStep) :
    (∃ later, step.run id outlets = (.ok (), later) ∧
        later.faults <:+ outlets.faults ∧
        later.WritesTo id path format
          (contents ++ format.lines step.event?.toList)) ∨
      ∃ error later fault, step.run id outlets = (.error error, later) ∧
        some fault ∈ outlets.faults := by
  obtain ⟨written, held, sink, file, rfl⟩ := writes
  obtain wrote | ⟨fault, coming, failed⟩ := attempt_cases outlets
  · left
    cases step with
    | append event =>
        refine ⟨_, (run_append_file sink event).trans (run_bind_ok wrote),
          List.tail_suffix _, written, held ++ format.line event ++ "\n",
          Std.ExtTreeMap.getElem?_insert_self, file, ?_⟩
        simp [FileStep.event?, LineFormat.lines, String.append_assoc]
    | flush =>
        refine ⟨_, (run_flush_file sink).trans (run_bind_ok wrote),
          List.tail_suffix _, _, "", Std.ExtTreeMap.getElem?_insert_self,
          Std.ExtTreeMap.getElem?_insert_self, ?_⟩
        simp [FileStep.event?, LineFormat.lines,
          Std.ExtTreeMap.getD_eq_getD_getElem?, file]
  · right
    cases step with
    | append event =>
        exact ⟨_, _, fault,
          (run_append_file sink event).trans (run_bind_error failed), coming⟩
    | flush =>
        exact ⟨_, _, fault,
          (run_flush_file sink).trans (run_bind_error failed), coming⟩

/-- Steps that all succeed add the lines of the events that they append.  They
do not all succeed only if a write was to fail. -/
theorem WritesTo.runAll
    (writes : outlets.WritesTo id path format contents)
    (steps : List FileStep) :
    (∃ later, FileStep.runAll id steps outlets = (.ok (), later) ∧
        later.faults <:+ outlets.faults ∧
        later.WritesTo id path format
          (contents ++ format.lines (steps.filterMap FileStep.event?))) ∨
      ∃ error later fault,
        FileStep.runAll id steps outlets = (.error error, later) ∧
          some fault ∈ outlets.faults := by
  induction steps generalizing outlets contents with
  | nil =>
      exact .inl ⟨outlets, rfl, List.suffix_refl _,
        by simpa [LineFormat.lines] using writes⟩
  | cons step rest inductionHypothesis =>
      have events : (step :: rest).filterMap FileStep.event? =
          step.event?.toList ++ rest.filterMap FileStep.event? := by
        cases step <;> rfl
      obtain ⟨middle, run, fewer, written⟩ |
          ⟨error, later, fault, run, coming⟩ :=
        writes.run step
      · obtain ⟨later, runRest, fewerStill, writtenRest⟩ |
            ⟨error, later, fault, runRest, coming⟩ :=
              inductionHypothesis written
        · refine .inl ⟨later, (run_bind_ok run).trans runRest,
            fewerStill.trans fewer, ?_⟩
          rwa [events, LineFormat.lines_append, ← String.append_assoc]
        · exact .inr ⟨error, later, fault, (run_bind_ok run).trans runRest,
            fewer.subset coming⟩
      · exact .inr ⟨error, later, fault, run_bind_error run, coming⟩

/-- A sink that was just opened has what was in the file. -/
theorem writesTo_openFile {given : String} {opened : Outlets}
    (opens : openFile given format outlets = (.ok id, opened)) :
    ∃ location, FileLocation.ofPath given = .ok location ∧
      opened.WritesTo id location.path format
        ((outlets.contents? given).getD "") := by
  unfold openFile at opens
  cases found : FileLocation.ofPath given with
  | error fault =>
      rw [found] at opens
      cases opens
  | ok location =>
      rw [found] at opens
      cases opens
      refine ⟨location, rfl, _, "", Std.ExtTreeMap.getElem?_insert_self,
        Std.ExtTreeMap.getElem?_insert_self, ?_⟩
      simp [contents?, found, Std.ExtTreeMap.getD_eq_getD_getElem?]

/-- Once a sink that appends to a file is flushed, what was added to the file
shows the events that the sink was given, in order.  Neither giving it the
events nor flushing it fails unless a write does. -/
theorem reads_back
    {opened : Outlets}
    (opens : openFile path format outlets = (.ok id, opened))
    (steps : List FileStep) :
    ((∀ fault, some fault ∉ opened.faults) → ∃ later,
        (do FileStep.runAll id steps; flush id) opened = (.ok (), later)) ∧
      ∀ later,
        (do FileStep.runAll id steps; flush id) opened = (.ok (), later) →
        ∃ added,
          later.contents? path =
            some ((outlets.contents? path).getD "" ++ added) ∧
          format.events? added = some (steps.filterMap FileStep.event?) := by
  obtain ⟨location, found, writes⟩ := writesTo_openFile opens
  have added := format.events?_lines (steps.filterMap FileStep.event?)
  obtain ⟨middle, run, fewer, written, held, sink, file, contents⟩ |
      ⟨error, middle, fault, run, coming⟩ := writes.runAll steps
  · obtain wrote | ⟨fault, coming, failed⟩ := attempt_cases middle
    · have flushed : (do FileStep.runAll id steps; flush id) opened = _ :=
        (run_bind_ok run).trans
          ((run_flush_file sink).trans (run_bind_ok wrote))
      refine ⟨fun _ => ⟨_, flushed⟩, fun later succeeds => ⟨_, ?_, added⟩⟩
      cases succeeds.symm.trans flushed
      simp [contents?, found, Std.ExtTreeMap.getD_eq_getD_getElem?, file,
        contents]
    · have fails : (do FileStep.runAll id steps; flush id) opened = _ :=
        (run_bind_ok run).trans
          ((run_flush_file sink).trans (run_bind_error failed))
      refine ⟨fun fine => absurd (fewer.subset coming) (fine fault),
        fun later succeeds => ?_⟩
      cases succeeds.symm.trans fails
  · refine ⟨fun fine => absurd coming (fine fault), fun later succeeds => ?_⟩
    cases succeeds.symm.trans (run_bind_error run)

/-- A file that had a line gets the lines of a deleted row without edges and,
after a flush in between, of an empty row. -/
theorem reads_back_empty_row :
    let before : Outlets :=
      { files := (∅ : Std.ExtTreeMap String String).insert "o" "?\n" }
    let steps : List FileStep :=
      [.append ⟨.deleted, ⟨[⟨3⟩], []⟩⟩, .flush, .append ⟨.emerged, ⟨[], []⟩⟩]
    let opened := (openFile "./o" .json before).2
    openFile "./o" .json before = (.ok 0, opened) ∧
      (∀ fault, some fault ∉ opened.faults) ∧
      ∃ later added,
        (do FileStep.runAll 0 steps; flush 0) opened = (.ok (), later) ∧
        later.contents? "./o" =
          some ((before.contents? "./o").getD "" ++ added) ∧
        LineFormat.json.events? added =
          some (steps.filterMap FileStep.event?) := by
  intro before steps opened
  have opens : openFile "./o" .json before = (.ok 0, opened) := rfl
  have fine : ∀ fault, some fault ∉ opened.faults := fun _ => List.not_mem_nil
  obtain ⟨succeeds, shows⟩ := reads_back opens steps
  obtain ⟨later, run⟩ := succeeds fine
  obtain ⟨added, written, read⟩ := shows later run
  exact ⟨opens, fine, later, added, run, written, read⟩

end Outlets

end DeltaGraph
