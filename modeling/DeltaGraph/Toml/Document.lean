import DeltaGraph.Toml.Statement

/-!
# TOML documents

The statements of a document are gathered into one table.  No table is defined
twice and no key is given twice; a table that other headers only implied can
still be defined, once.
-/

namespace DeltaGraph
namespace Toml

/-- The entries after an update of the entries of the table at a path.  Tables
that are missing on the way are implied; of the tables of a repeated header the
last is meant. -/
def updateAt (update : Entries → Option Entries) :
    List String → Entries → Option Entries
  | [], entries => update entries
  | name :: names, entries =>
      match find? entries name with
      | none => do
          return put entries name (.table .implied (← updateAt update names []))
      | some (.table .inlined _) => none
      | some (.table kind inner) => do
          return put entries name (.table kind (← updateAt update names inner))
      | some (.tables elements) => do
          let inner ← updateAt update names (← elements.getLast?)
          return put entries name (.tables (elements.dropLast ++ [inner]))
      | some _ => none

/-- Defines a table, which so far is missing or implied. -/
def openTable (name : String) (entries : Entries) : Option Entries :=
  match find? entries name with
  | none => some (put entries name (.table .defined []))
  | some (.table .implied inner) =>
      some (put entries name (.table .defined inner))
  | some _ => none

/-- Adds a table to those of a repeated header. -/
def openElement (name : String) (entries : Entries) : Option Entries :=
  match find? entries name with
  | none => some (put entries name (.tables [[]]))
  | some (.tables elements) =>
      some (put entries name (.tables (elements ++ [[]])))
  | some _ => none

/-- A document as far as it was read, with the path of the last header. -/
structure Draft where
  entries : Entries := []
  current : List String := []

/-- The draft after one more statement. -/
def Draft.add (draft : Draft) : Statement → Option Draft
  | .table path => do
      let entries ← updateAt (openTable path.last) path.parents draft.entries
      return { entries, current := path.parents ++ [path.last] }
  | .element path => do
      let entries ← updateAt (openElement path.last) path.parents draft.entries
      return { entries, current := path.parents ++ [path.last] }
  | .pair path value => do
      let entries ←
        updateAt (putPair value path.last true path.parents) draft.current
        draft.entries
      return { draft with entries }

/-- The text after a byte order mark, if there is one. -/
def skipMark : List Char → List Char
  | '\ufeff' :: rest => rest
  | chars => chars

/-- The text of lines, with an end of each line. -/
def ofLines (lines : List String) :
    String := String.join (lines.map (· ++ "\n"))

/-- The entries of a document, if it is one. -/
def parse? (text : String) : Option Entries := do
  let chars := skipMark text.toList
  let statements ← readStatements chars.length (chars.length + 1) chars
  return (← statements.foldlM Draft.add {}).entries

end Toml

end DeltaGraph
