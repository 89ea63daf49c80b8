import DeltaGraph.Config.Document
import DeltaGraph.Proofs.Toml.Tables
import Mathlib.Data.List.Nodup

/-!
# Round trips of configurations

The document that a configuration is written as is read back as this
configuration, and a document with some of the settings as the default
configuration with these replaced.
-/

namespace DeltaGraph
namespace Config

/-! ## Values of settings -/

theorem Heading.isBareKey (heading : Heading) :
    Toml.IsBareKey heading.word := by
  cases heading <;> exact ⟨by decide, List.all_eq_true.mp rfl⟩

theorem Heading.word_injective : Function.Injective Heading.word := by
  intro heading other
  cases heading <;> cases other <;> simp [word]

namespace Field

/-- All settings. -/
def all : List Field := [explain, format, flushEachBatch, vertexCapacity]

theorem isBareKey (field : Field) : Toml.IsBareKey field.key := by
  cases field <;> exact ⟨by decide, List.all_eq_true.mp rfl⟩

theorem key_injective : Function.Injective key := by
  intro field other
  cases field <;> cases other <;> simp [key]

/-- The value of a setting. -/
def value (config : Config) : Field → Toml
  | explain => .boolean config.explain
  | format => .string config.format.word
  | flushEachBatch => .boolean config.flushEachBatch
  | vertexCapacity => .integer config.vertexCapacity

/-- A string shows the word for a format as it is. -/
theorem isBasic_of_mem_word (format : LineFormat) :
    ∀ char ∈ format.word.toList, Toml.isBasic char = true := by
  cases format <;> exact List.all_eq_true.mp rfl

theorem spells
    {config : Config}
    (fits : config.vertexCapacity ≤ 2 ^ 63 - 1)
    (field : Field) :
    Toml.Spells (field.text config) (field.value config) := by
  cases field with
  | explain => exact Toml.spells_boolean _
  | format => exact Toml.spells_string (isBasic_of_mem_word config.format)
  | flushEachBatch => exact Toml.spells_boolean _
  | vertexCapacity => exact Toml.spells_integer (by omega)

/-- Among settings, one is found by its key. -/
theorem find?_fields (config : Config) (fields : List Field) (field : Field) :
    Toml.find? (fields.map fun field => (field.key, field.value config))
      field.key =
      if field ∈ fields then some (field.value config) else none := by
  induction fields with
  | nil => rfl
  | cons first fields inductionHypothesis =>
      rw [List.map_cons]
      by_cases same : field = first
      · simp [same]
      · have other : field.key ≠ first.key :=
          fun equal => same (key_injective equal)
        rw [Toml.find?_cons_of_ne other, inductionHypothesis]
        simp [same]

end Field

/-! ## Tables -/

variable {config : Config}

namespace Table

/-- A table as it is read. -/
def plain (config : Config) (table : Table) : Toml.PlainTable :=
  ⟨table.heading.word,
    table.fields.map fun field => (field.key, field.value config)⟩

theorem written (fits : config.vertexCapacity ≤ 2 ^ 63 - 1) (table : Table) :
    Toml.Written (table.lines config) (table.plain config).statements := by
  refine .line (Toml.states_table table.heading.isBareKey) ?_
  rw [plain, List.map_map]
  induction table.fields with
  | nil => exact .nil
  | cons field fields inductionHypothesis =>
      exact .line (Toml.states_pair field.isBareKey (field.spells fits))
        inductionHypothesis

end Table

namespace Layout

variable (layout : Layout)

/-- A table is found by its heading. -/
theorem find?_tables
    {tables : List Table}
    (different : (tables.map Table.heading).Nodup)
    {table : Table}
    (member : table ∈ tables) :
    Toml.find? ((tables.map (Table.plain config)).map Toml.PlainTable.entry)
      table.heading.word =
      some (.table .defined (table.plain config).fields) := by
  induction tables with
  | nil => cases member
  | cons first tables inductionHypothesis =>
      rw [List.map_cons, List.nodup_cons] at different
      rw [List.map_cons, List.map_cons]
      rcases List.mem_cons.mp member with rfl | later
      · exact Toml.find?_cons_self _ _ _
      · have other : table.heading.word ≠ first.heading.word := fun equal =>
          different.1 (Heading.word_injective equal ▸ List.mem_map_of_mem later)
        exact (Toml.find?_cons_of_ne other _ _).trans
          (inductionHypothesis different.2 later)

theorem written_document
    (fits : config.vertexCapacity ≤ 2 ^ 63 - 1)
    (tables : List Table) :
    Toml.Written ([""].intercalate (tables.map (Table.lines config)))
      ((tables.map (Table.plain config)).flatMap
        Toml.PlainTable.statements) := by
  induction tables with
  | nil => exact .nil
  | cons first tables inductionHypothesis =>
      have lines := first.written fits
      cases tables with
      | nil => simpa using lines
      | cons second tables =>
          rw [List.map_cons, List.map_cons, List.intercalate_cons_cons,
            List.append_assoc]
          exact lines.append (.blank inductionHypothesis)

/-- The entries of a document. -/
def entries (config : Config) : Toml.Entries :=
  (layout.tables.map (Table.plain config)).map Toml.PlainTable.entry

/-- The entries of a document are its tables. -/
theorem parse?_document (fits : config.vertexCapacity ≤ 2 ^ 63 - 1) :
    Toml.parse? (layout.document config) = some (layout.entries config) := by
  refine (written_document fits layout.tables).parse?_tables ?_
    fun table member => ?_
  · have words :
        (layout.tables.map (Table.plain config)).map Toml.PlainTable.name =
          (layout.tables.map Table.heading).map Heading.word := by
      rw [List.map_map, List.map_map]
      rfl
    rw [words]
    exact List.Nodup.map Heading.word_injective layout.different
  · obtain ⟨listed, here, rfl⟩ := List.mem_map.mp member
    have keys :
        (listed.plain config).fields.map Prod.fst =
          listed.fields.map Field.key := by
      rw [Table.plain, List.map_map]
      rfl
    rw [keys]
    exact List.Nodup.map Field.key_injective (layout.once listed here)

/-- A table has the settings of the document that belong to it. -/
theorem mem_fields_iff
    {table : Table}
    (member : table ∈ layout.tables)
    {field : Field}
    (belongs : field.heading = table.heading) :
    field ∈ layout.fields ↔ field ∈ table.fields := by
  rw [fields, List.mem_flatMap]
  constructor
  · rintro ⟨other, listed, inside⟩
    have heading := (layout.own other listed field inside).symm.trans belongs
    exact List.inj_on_of_nodup_map layout.different listed member heading ▸
      inside
  · exact fun inside => ⟨table, member, inside⟩

/-- Under a heading the settings that the document has are read by their
keys. -/
theorem section?_find? (config : Config) (heading : Heading) :
    ∃ reads : Section,
      Config.section? (Toml.find? (layout.entries config) heading.word) =
        some reads ∧
      ∀ field position, field.heading = heading →
        reads field.key position =
          if field ∈ layout.fields then some (field.value config)
            else none := by
  by_cases present : heading ∈ layout.tables.map Table.heading
  · obtain ⟨table, member, rfl⟩ := List.mem_map.mp present
    rw [entries, find?_tables layout.different member]
    refine ⟨_, rfl, fun field _ belongs => ?_⟩
    have found : Toml.find? (table.plain config).fields field.key =
        if field ∈ table.fields then some (field.value config) else none :=
      Field.find?_fields config table.fields field
    simp only [layout.mem_fields_iff member belongs, found]
  · have missing : Toml.find? (layout.entries config) heading.word = none := by
      rw [Toml.find?_eq_none_iff, entries, List.map_map, List.map_map]
      intro named
      obtain ⟨table, member, same⟩ := List.mem_map.mp named
      exact present
        (List.mem_map.mpr ⟨table, member, Heading.word_injective same⟩)
    rw [missing]
    refine ⟨_, rfl, fun field _ belongs => ?_⟩
    rw [if_neg]
    intro inside
    obtain ⟨table, member, here⟩ := List.mem_flatMap.mp inside
    exact present (List.mem_map.mpr
      ⟨table, member, (layout.own table member field here).symm.trans belongs⟩)

/-- A layout with the chosen settings, for headings in any order. -/
def choose
    (headings : List Heading)
    (different : headings.Nodup)
    (chosen : Field → Bool) :
    Layout where
  tables := headings.map fun heading =>
    ⟨heading,
      Field.all.filter fun field => field.heading = heading ∧ chosen field⟩
  different := by
    rw [List.map_map]
    exact List.Nodup.map (fun _ _ same => same) different
  once table member := by
    obtain ⟨heading, _, rfl⟩ := List.mem_map.mp member
    exact List.Nodup.filter _ (by decide)
  own table member field inside := by
    obtain ⟨heading, _, rfl⟩ := List.mem_map.mp member
    exact (of_decide_eq_true (List.mem_filter.mp inside).2).1

theorem mem_fields_choose {headings : List Heading} (different : headings.Nodup)
    (chosen : Field → Bool) (field : Field) :
    field ∈ (choose headings different chosen).fields ↔
      field.heading ∈ headings ∧ chosen field = true := by
  have listed : field ∈ Field.all := by cases field <;> decide
  simp [fields, choose, listed]

end Layout

/-! ## Round trips -/

/-- The word for a format is read as the format. -/
theorem formatNamed?_word (format : LineFormat) :
    formatNamed? format.word = some format := by
  cases format <;> rfl

/-- A document with some settings of a configuration is read as the default
configuration with these replaced. -/
theorem ofToml_document
    (fits : config.vertexCapacity ≤ 2 ^ 63 - 1)
    (layout : Layout) :
    ofToml (layout.document config) = .ok (config.keeping layout.fields) := by
  obtain ⟨planner, readPlanner, plannerFields⟩ :=
    layout.section?_find? config .planner
  obtain ⟨output, readOutput, outputFields⟩ :=
    layout.section?_find? config .output
  obtain ⟨graph, readGraph, graphFields⟩ := layout.section?_find? config .graph
  have explain : setting boolean? false (planner "explain" 0) =
      some (config.keeping layout.fields).explain := by
    rw [← Field.key, plannerFields .explain 0 rfl, keeping]
    split <;> rfl
  have format : setting format? .text (output "format" 0) =
      some (config.keeping layout.fields).format := by
    rw [← Field.key, outputFields .format 0 rfl, keeping]
    split
    · exact formatNamed?_word config.format
    · rfl
  have flush : setting boolean? true (output "flush_each_batch" 1) =
      some (config.keeping layout.fields).flushEachBatch := by
    rw [← Field.key, outputFields .flushEachBatch 1 rfl, keeping]
    split <;> rfl
  have capacity : setting natural? 0 (graph "vertex_capacity" 0) =
      some (config.keeping layout.fields).vertexCapacity := by
    rw [← Field.key, graphFields .vertexCapacity 0 rfl, keeping]
    split <;> rfl
  have read : (Toml.parse? (layout.document config)).bind ofEntries? =
      some (config.keeping layout.fields) := by
    rw [layout.parse?_document fits, Option.bind_some, ofEntries?]
    simp only [Heading.word] at readPlanner readOutput readGraph
    simp only [readPlanner, readOutput, readGraph, explain, format, flush,
      capacity, Option.bind_eq_bind, Option.bind_some]
    rfl
  rw [ofToml, read]

/-- The document of a configuration has all settings in order. -/
theorem toToml_eq_document (fits : config.vertexCapacity ≤ 2 ^ 63 - 1) :
    config.toToml = .ok (Layout.full.document config) := by
  have greatest : Int64.maxValue.toInt = 2 ^ 63 - 1 := by decide
  have written : config.vertexCapacity ≤ Int64.maxValue.toInt := by omega
  rw [toToml, if_pos written]
  refine congrArg Except.ok (String.toList_inj.mp ?_)
  simp [Layout.document, Layout.full, Toml.ofLines, Table.lines, Heading.word,
    Field.key, Field.text]

theorem keeping_full (config : Config) :
    config.keeping Layout.full.fields = config := by
  simp [keeping, Layout.full, Layout.fields]

/-- A configuration has a document from which it is read back, and any of its
settings are read back from a document with only these. -/
theorem survives_round_trip (fits : config.vertexCapacity ≤ 2 ^ 63 - 1) :
    (∃ document, config.toToml = .ok document ∧ ofToml document = .ok config) ∧
      ∀ layout : Layout,
        ofToml (layout.document config) =
          .ok (config.keeping layout.fields) := by
  have read (layout : Layout) := ofToml_document fits layout
  refine ⟨⟨_, toToml_eq_document fits, ?_⟩, read⟩
  rw [read, keeping_full]

/-- A configuration with a setting of each kind, and a document with two of them
in another order. -/
theorem survives_round_trip_reordered :
    let config : Config :=
      { explain := true
        format := .json
        flushEachBatch := false
        vertexCapacity := 100000 }
    let layout : Layout :=
      { tables := [⟨.graph, [.vertexCapacity]⟩, ⟨.output, [.flushEachBatch]⟩]
        different := by decide
        once := by decide
        own := by decide }
    config.vertexCapacity ≤ 2 ^ 63 - 1 ∧
      (∃ document,
        config.toToml = .ok document ∧ ofToml document = .ok config) ∧
      layout.document config =
        "[graph]\nvertex_capacity = 100000\n\n" ++
          "[output]\nflush_each_batch = false\n" ∧
      ofToml (layout.document config) =
        .ok { flushEachBatch := false, vertexCapacity := 100000 } := by
  intro config layout
  have fits : config.vertexCapacity ≤ 2 ^ 63 - 1 := by decide
  obtain ⟨whole, part⟩ := survives_round_trip fits
  exact ⟨fits, whole, by decide +kernel, part layout⟩

end Config
end DeltaGraph
