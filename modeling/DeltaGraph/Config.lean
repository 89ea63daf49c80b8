import DeltaGraph.Error
import DeltaGraph.Toml.Document

/-!
# Configuration

The settings of an engine are read from a TOML document with three sections.
Settings and sections that are missing have their defaults, and those that are
not known are ignored.
-/

namespace DeltaGraph

/-- The form of the lines of an output file. -/
inductive LineFormat
  | text
  | json
  deriving DecidableEq

/-- The word for a format. -/
def LineFormat.word : LineFormat → String
  | text => "text"
  | json => "json"

/-- The settings of an engine. -/
structure Config where
  /-- Whether plans are described in the log. -/
  explain : Bool := false
  format : LineFormat := .text
  /-- Whether the sink of a standing query is flushed after each batch. -/
  flushEachBatch : Bool := true
  /-- The number of vertices that is expected. -/
  vertexCapacity : Nat := 0
  deriving DecidableEq

namespace Config

/-- Plans are described, and files have JSON lines. -/
def verbose : Config := { explain := true, format := .json }

/-- Sinks are flushed only when they are closed. -/
def quiet : Config := { flushEachBatch := false }

/-- Finds a setting of a section by its name or its position. -/
abbrev Section := String → Nat → Option Toml

/-- The settings of a section: those of a table by name, those of an array by
position.  A moment has no settings. -/
def section? : Option Toml → Option Section
  | none => some fun _ _ => none
  | some (.table _ entries) => some fun name _ => Toml.find? entries name
  | some (.array items) => some fun _ position => items[position]?
  | some (.tables elements) => some fun _ position =>
      (elements[position]?).map (.table .defined)
  | some (.moment _) => some fun _ _ => none
  | some _ => none

/-- Reads a setting, or gives its default if it is missing. -/
def setting
    {α : Type}
    (read? : Toml → Option α)
    (default : α) : Option Toml → Option α
  | none => some default
  | some value => read? value

/-- A truth value. -/
def boolean? : Toml → Option Bool
  | .boolean value => some value
  | _ => none

/-- A natural number. -/
def natural? : Toml → Option Nat
  | .integer (.ofNat value) => some value
  | _ => none

/-- The format with a name. -/
def formatNamed? (name : String) : Option LineFormat :=
  if name = "text" then some .text else if name = "json" then some .json
    else none

/-- A format: its name, or a table with the name as its only key and nothing
under it. -/
def format? : Toml → Option LineFormat
  | .string name => formatNamed? name
  | .table _ [(name, .table _ [])] => formatNamed? name
  | .table _ [(name, .array [])] => formatNamed? name
  | _ => none

/-- The configuration in the entries of a document. -/
def ofEntries? (entries : Toml.Entries) : Option Config := do
  let planner ← section? (Toml.find? entries "planner")
  let output ← section? (Toml.find? entries "output")
  let graph ← section? (Toml.find? entries "graph")
  return {
    explain := ← setting boolean? false (planner "explain" 0)
    format := ← setting format? .text (output "format" 0)
    flushEachBatch := ← setting boolean? true (output "flush_each_batch" 1)
    vertexCapacity := ← setting natural? 0 (graph "vertex_capacity" 0) }

/-- The configuration in a TOML document. -/
def ofToml (text : String) : Except Error Config :=
  match (Toml.parse? text).bind ofEntries? with
  | some config => .ok config
  | none => .error .malformedConfig

/-- The configuration in a file; none stands for a file that does not exist. -/
def ofFile : Option String → Except Error Config
  | some contents => ofToml contents
  | none => .error (.file .notFound)

/-- The word for a truth value. -/
def booleanWord (value : Bool) : String := if value then "true" else "false"

/-- The configuration as a TOML document.  An integer of TOML has 64 bits with
its sign, so that there is no document if more vertices are expected. -/
def toToml (config : Config) : Except Error String :=
  if config.vertexCapacity ≤ Int64.maxValue.toInt then
    .ok ("[planner]\nexplain = " ++ booleanWord config.explain ++
      "\n\n[output]\nformat = \"" ++ config.format.word ++
      "\"\nflush_each_batch = " ++ booleanWord config.flushEachBatch ++
      "\n\n[graph]\nvertex_capacity = " ++ toString config.vertexCapacity ++
      "\n")
  else .error .malformedConfig

end Config

end DeltaGraph
