import DeltaGraph.Config

/-!
# Configuration documents

A document has some of the settings of a configuration, each in the table it
belongs to.  The tables and the settings of a table come in any order.
-/

namespace DeltaGraph
namespace Config

/-- The name of a table. -/
inductive Heading
  | planner
  | output
  | graph
  deriving DecidableEq

/-- The word for a heading. -/
def Heading.word : Heading → String
  | planner => "planner"
  | output => "output"
  | graph => "graph"

/-- A setting of a configuration. -/
inductive Field
  | explain
  | format
  | flushEachBatch
  | vertexCapacity
  deriving DecidableEq

namespace Field

/-- The heading of the table that a setting belongs to. -/
def heading : Field → Heading
  | explain => .planner
  | format => .output
  | flushEachBatch => .output
  | vertexCapacity => .graph

/-- The key of a setting. -/
def key : Field → String
  | explain => "explain"
  | format => "format"
  | flushEachBatch => "flush_each_batch"
  | vertexCapacity => "vertex_capacity"

/-- The text of the value of a setting. -/
def text (config : Config) : Field → String
  | explain => booleanWord config.explain
  | format => "\"" ++ config.format.word ++ "\""
  | flushEachBatch => booleanWord config.flushEachBatch
  | vertexCapacity => toString config.vertexCapacity

end Field

/-- Settings under a heading. -/
structure Table where
  heading : Heading
  fields : List Field

/-- The lines of a table. -/
def Table.lines (config : Config) (table : Table) : List String :=
  ("[" ++ table.heading.word ++ "]") ::
    table.fields.map fun field => field.key ++ " = " ++ field.text config

/-- Tables with different headings, each with different settings that belong to
it. -/
structure Layout where
  tables : List Table
  different : (tables.map Table.heading).Nodup
  once : ∀ table ∈ tables, table.fields.Nodup
  own : ∀ table ∈ tables, ∀ field ∈ table.fields, field.heading = table.heading

namespace Layout

/-- The settings of all tables. -/
def fields (layout : Layout) : List Field := layout.tables.flatMap Table.fields

/-- The document with the settings of a configuration in the given layout, with
a blank line between tables. -/
def document (layout : Layout) (config : Config) : String :=
  Toml.ofLines ([""].intercalate (layout.tables.map (Table.lines config)))

/-- The layout with all settings. -/
def full : Layout where
  tables := [⟨.planner, [.explain]⟩, ⟨.output, [.format, .flushEachBatch]⟩,
    ⟨.graph, [.vertexCapacity]⟩]
  different := by decide
  once := by decide
  own := by decide

end Layout

/-- The default configuration with the given settings replaced by those of
another one. -/
def keeping (config : Config) (fields : List Field) : Config :=
  let standard : Config := {}
  { explain := if .explain ∈ fields then config.explain else standard.explain
    format := if .format ∈ fields then config.format else standard.format
    flushEachBatch :=
      if .flushEachBatch ∈ fields then config.flushEachBatch
        else standard.flushEachBatch
    vertexCapacity :=
      if .vertexCapacity ∈ fields then config.vertexCapacity
        else standard.vertexCapacity }

end Config
end DeltaGraph
