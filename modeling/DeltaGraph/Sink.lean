import DeltaGraph.Config
import DeltaGraph.Execution
import DeltaGraph.FileLocation

/-!
# Sinks

Events are delivered to sinks.  A sink collects events in memory, hands them to
a callback, appends them as lines to a file, or hands a limited number of them
to a callback and refuses the rest.  Lines for a file are held back until the
sink is flushed or closed, and any write to a file may fail.  What callbacks see
is kept in one log, in order of arrival.

A sink can be shared: by the standing queries that deliver to it, by names of
callbacks, and by those who made it.  It is closed when the last of them lets go
of it.
-/

namespace DeltaGraph

/-- The line of an event, without the line end. -/
def LineFormat.line (format : LineFormat) (event : Event) : String :=
  match format with
  | .text => event.text
  | .json => event.json

/-- A receiver of events. -/
inductive Sink
  /-- Has collected events, the last one first. -/
  | memory (newest : List Event)
  | callback (label : String)
  | file (path : String) (format : LineFormat) (held : String)
  /-- Hands `remaining` more events to a callback; flushing it can fail. -/
  | limited (label : String) (remaining : Nat) (flushFails : Bool)

/-- What a callback saw. -/
inductive LogEntry
  | event (label : String) (event : Event)
  | flush (label : String)
  deriving DecidableEq

/-- The text of a log entry. -/
def LogEntry.text : LogEntry → String
  | event label seen => label ++ " " ++ seen.text
  | flush label => label ++ " flush"

/-- The number of a sink. -/
abbrev SinkId := Nat

/-- All sinks, the files they write, and the log of the callbacks. -/
structure Outlets where
  sinks : Std.ExtTreeMap SinkId Sink := ∅
  nextSink : SinkId := 0
  /-- Each sink as often as it is shared. -/
  shares : List SinkId := []
  /-- The contents of the files by their shortest paths. -/
  files : Std.ExtTreeMap String String := ∅
  /-- The faults of the coming writes to files, that of the next one first.
  Writes without a fault succeed, and so do those past the end of the list. -/
  faults : List (Option FileFault) := []
  /-- What the callbacks saw, the last entry first. -/
  log : List LogEntry := []

namespace Outlets

/-- Adds a sink, of which its maker has a share. -/
def add (sink : Sink) : StateM Outlets SinkId :=
  modifyGet fun outlets =>
    (outlets.nextSink,
      { outlets with
        sinks := outlets.sinks.insert outlets.nextSink sink
        nextSink := outlets.nextSink + 1
        shares := outlets.nextSink :: outlets.shares })

/-- Replaces a sink. -/
def put (id : SinkId) (sink : Sink) : StateM Outlets Unit :=
  modify fun outlets => { outlets with sinks := outlets.sinks.insert id sink }

/-- Adds an entry at the end of the log. -/
def enter (entry : LogEntry) : StateM Outlets Unit :=
  modify fun outlets => { outlets with log := entry :: outlets.log }

/-- Has the next write to a file succeed or fail. -/
def attempt : ExceptT Error (StateM Outlets) Unit := do
  let outlets ← get
  set { outlets with faults := outlets.faults.tail }
  match outlets.faults.head?.join with
  | some fault => throw (.file fault)
  | none => pure ()

/-- Appends a text to the file with a shortest path. -/
def write (path text : String) : StateM Outlets Unit :=
  modify fun outlets =>
    { outlets with files :=
      outlets.files.insert path (outlets.files.getD path "" ++ text) }

/-- Adds a sink that appends to the file that a path names, which is created if
it is missing. -/
def openFile
    (path : String)
    (format : LineFormat) : ExceptT Error (StateM Outlets) SinkId :=
  match FileLocation.ofPath path with
  | .error fault => throw (.file fault)
  | .ok location => do
      write location.path ""
      add (.file location.path format "")

/-- The contents of the file that a path names, if there is one. -/
def contents? (outlets : Outlets) (path : String) : Option String :=
  match FileLocation.ofPath path with
  | .error _ => none
  | .ok location => outlets.files[location.path]?

/-- Delivers an event to a sink.  A line for a file may have to make room by
writing others, so that it can fail. -/
def append
    (id : SinkId)
    (event : Event) : ExceptT Error (StateM Outlets) Unit := do
  match (← get).sinks[id]? with
  | some (.memory newest) => put id (.memory (event :: newest))
  | some (.callback label) => enter (.event label event)
  | some (.file path format held) =>
      attempt
      put id (.file path format (held ++ format.line event ++ "\n"))
  | some (.limited label (remaining + 1) flushFails) =>
      enter (.event label event)
      put id (.limited label remaining flushFails)
  | some (.limited _ 0 _) => throw .refusedRow
  | none => pure ()

/-- Passes on what a sink holds back.  What cannot be written stays there. -/
def flush (id : SinkId) : ExceptT Error (StateM Outlets) Unit := do
  match (← get).sinks[id]? with
  | some (.file path format held) =>
      attempt
      write path held
      put id (.file path format "")
  | some (.limited label _ flushFails) =>
      enter (.flush label)
      if flushFails then throw .missingTarget
  | some (.memory _) => pure ()
  | some (.callback _) => pure ()
  | none => pure ()

/-- Closes a sink.  A file gets what is held back for it, unless it cannot be
written, of which nobody learns. -/
def close (id : SinkId) : StateM Outlets Unit := do
  if let some (.file path _ held) := (← get).sinks[id]? then
    if (← attempt.run) matches .ok _ then write path held
  modify fun outlets => { outlets with sinks := outlets.sinks.erase id }

/-- Takes another share of a sink. -/
def share (id : SinkId) : StateM Outlets Unit :=
  modify fun outlets => { outlets with shares := id :: outlets.shares }

/-- Gives back a share of a sink, which is closed with the last one. -/
def release (id : SinkId) : StateM Outlets Unit := do
  modify fun outlets => { outlets with shares := outlets.shares.erase id }
  if id ∉ (← get).shares then close id

/-- The events that a sink has collected. -/
def collected (outlets : Outlets) (id : SinkId) : List Event :=
  match outlets.sinks[id]? with
  | some (.memory newest) => newest.reverse
  | _ => []

/-- Takes the collected events out of a sink. -/
def take (id : SinkId) : StateM Outlets (List Event) := do
  let outlets ← get
  match outlets.sinks[id]? with
  | some (.memory _) =>
      put id (.memory [])
      return outlets.collected id
  | _ => return []

/-- Takes all entries out of the log. -/
def takeLog : StateM Outlets (List LogEntry) :=
  modifyGet fun outlets => (outlets.log.reverse, { outlets with log := [] })

end Outlets

end DeltaGraph
