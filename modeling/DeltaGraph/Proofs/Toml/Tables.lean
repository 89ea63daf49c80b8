import DeltaGraph.Proofs.Toml.Lines

/-!
# Documents of plain tables

Headers with different names, each followed by pairs with different keys, give
one entry for each header.
-/

namespace DeltaGraph
namespace Toml

/-! ## Finding names -/

@[simp] theorem find?_cons_self
    (name : String)
    (value : Toml)
    (rest : Entries) :
    find? ((name, value) :: rest) name = some value := by
  simp [find?]

theorem find?_cons_of_ne
    {name other : String}
    (different : name ≠ other)
    (value : Toml)
    (rest : Entries) :
    find? ((other, value) :: rest) name = find? rest name := by
  rw [find?, List.lookup_cons, beq_false_of_ne different, find?]

section

variable {entries : Entries} {name : String}

theorem find?_eq_none_iff : find? entries name = none ↔
    name ∉ entries.map Prod.fst := by
  rw [find?, List.lookup_eq_none_iff, List.mem_map, not_exists]
  refine forall_congr' fun entry => ?_
  rw [not_and, bne_iff_ne, ne_comm]

/-- A new name is looked for behind the entries. -/
theorem find?_append (new : name ∉ entries.map Prod.fst) (more : Entries) :
    find? (entries ++ more) name = find? more name := by
  have missing := find?_eq_none_iff.mpr new
  rw [find?] at missing
  rw [find?, List.lookup_append, missing, Option.none_or, find?]

theorem put_append
    (new : name ∉ entries.map Prod.fst)
    (more : Entries)
    (value : Toml) :
    put (entries ++ more) name value = entries ++ put more name value := by
  induction entries with
  | nil => rfl
  | cons entry entries inductionHypothesis =>
      rw [List.map_cons, List.mem_cons, not_or] at new
      rw [List.cons_append, put, if_neg (Ne.symm new.1),
        inductionHypothesis new.2, List.cons_append]

/-- The value of a new name comes last. -/
theorem put_of_new (new : name ∉ entries.map Prod.fst) (value : Toml) :
    put entries name value = entries ++ [(name, value)] := by
  have last := put_append new [] value
  rwa [List.append_nil] at last

end

/-! ## Drafts -/

/-- A header with the pairs below it. -/
structure PlainTable where
  name : String
  fields : Entries

namespace PlainTable

/-- The statements of a table. -/
def statements (table : PlainTable) : List Statement :=
  .table ⟨[], table.name⟩ ::
    table.fields.map fun field => .pair ⟨[], field.1⟩ field.2

/-- The entry of a table. -/
def entry (table : PlainTable) :
    String × Toml := (table.name, .table .defined table.fields)

end PlainTable

section

variable {before : Entries} {name : String} (new : name ∉ before.map Prod.fst)

include new

/-- A header opens a table behind the others. -/
theorem add_table (current : List String) :
    Draft.add ⟨before, current⟩ (.table ⟨[], name⟩) =
      some ⟨before ++ [(name, .table .defined [])], [name]⟩ := by
  simp [Draft.add, updateAt, openTable, find?_eq_none_iff.mpr new,
    put_of_new new]

/-- A pair is put into the last table. -/
theorem add_pair
    {given : Entries}
    {key : String}
    (newKey : key ∉ given.map Prod.fst)
    (value : Toml) :
    Draft.add ⟨before ++ [(name, .table .defined given)], [name]⟩
      (.pair ⟨[], key⟩ value) =
      some ⟨before ++ [(name, .table .defined (given ++ [(key, value)]))],
        [name]⟩ := by
  have found : find? (before ++ [(name, .table .defined given)]) name =
      some (.table .defined given) := by
    rw [find?_append new, find?_cons_self]
  have inner :
      putPair value key true [] given = some (given ++ [(key, value)]) := by
    simp [putPair, find?_eq_none_iff.mpr newKey, put_of_new newKey]
  simp [Draft.add, updateAt, found, inner, put_append new, put]

/-- Pairs with new keys follow those of the last table. -/
theorem foldlM_pairs (given fields : Entries)
    (different : ((given ++ fields).map Prod.fst).Nodup) :
    (fields.map fun field => Statement.pair ⟨[], field.1⟩ field.2).foldlM
      Draft.add
        ⟨before ++ [(name, .table .defined given)], [name]⟩ =
      some ⟨before ++ [(name, .table .defined (given ++ fields))], [name]⟩ := by
  induction fields generalizing given with
  | nil => simp
  | cons field fields inductionHypothesis =>
      have newKey : field.1 ∉ given.map Prod.fst := by
        rw [List.map_append, List.map_cons, List.nodup_append] at different
        exact fun member => different.2.2 _ member _ (.head _) rfl
      have more : (((given ++ [field]) ++ fields).map Prod.fst).Nodup := by
        simpa using different
      rw [List.map_cons, List.foldlM_cons, add_pair new newKey]
      simpa using inductionHypothesis _ more

/-- The statements of a table with a new name add its entry. -/
theorem foldlM_statements {table : PlainTable} (named : table.name = name)
    (different : (table.fields.map Prod.fst).Nodup) (current : List String) :
    table.statements.foldlM Draft.add ⟨before, current⟩ =
      some ⟨before ++ [table.entry], [name]⟩ := by
  have pairs := foldlM_pairs new [] table.fields different
  simp [PlainTable.statements, PlainTable.entry, named, add_table new, pairs]

end

/-- The statements of tables with different names give the entries of the
tables. -/
theorem foldlM_tables
    (done tables : List PlainTable)
    (different : ((done ++ tables).map PlainTable.name).Nodup)
    (each : ∀ table ∈ tables, (table.fields.map Prod.fst).Nodup)
    (current : List String) :
    ((tables.flatMap PlainTable.statements).foldlM Draft.add
        ⟨done.map PlainTable.entry, current⟩).map Draft.entries =
      some ((done ++ tables).map PlainTable.entry) := by
  -- the tables that are done stay in front, and the next one is opened behind
  -- them
  induction tables generalizing done current with
  | nil => simp
  | cons table tables inductionHypothesis =>
      have new : table.name ∉ (done.map PlainTable.entry).map Prod.fst := by
        rw [List.map_append, List.map_cons, List.nodup_append] at different
        rw [List.map_map]
        exact fun member => different.2.2 _ member _ (.head _) rfl
      have first := foldlM_statements new rfl (each table (.head _)) current
      have more :
          (((done ++ [table]) ++ tables).map PlainTable.name).Nodup := by
        simpa using different
      have rest :=
        inductionHypothesis _ more
          (fun other member => each other (.tail _ member))
        [table.name]
      rw [List.flatMap_cons, List.foldlM_append, first]
      simpa using rest

/-- A document of the lines of plain tables has their entries. -/
theorem Written.parse?_tables {lines : List String} {tables : List PlainTable}
    (written : Written lines (tables.flatMap PlainTable.statements))
    (different : (tables.map PlainTable.name).Nodup)
    (each : ∀ table ∈ tables, (table.fields.map Prod.fst).Nodup) :
    parse? (ofLines lines) = some (tables.map PlainTable.entry) := by
  rw [written.parse?_ofLines]
  exact foldlM_tables [] tables different each []

end Toml
end DeltaGraph
