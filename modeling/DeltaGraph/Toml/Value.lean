import DeltaGraph.Binary64

/-!
# TOML values

A TOML document is a table of named values.  How a table came about decides
what may be added to it later in the document.
-/

namespace DeltaGraph

/-- How a table of a TOML document came about. -/
inductive TableKind
  /-- By a header of its own. -/
  | defined
  /-- As part of the path of another header. -/
  | implied
  /-- As part of a dotted key. -/
  | dotted
  /-- Between braces; such a table is complete. -/
  | inlined
  deriving DecidableEq

/-- A value of a TOML document. -/
inductive Toml
  | string (text : String)
  | integer (value : Int)
  | float (value : Binary64)
  | boolean (value : Bool)
  /-- A date, a time, or both. -/
  | moment (text : String)
  | array (items : List Toml)
  | table (kind : TableKind) (entries : List (String × Toml))
  /-- Tables that share the name of a repeated header. -/
  | tables (elements : List (List (String × Toml)))

namespace Toml

/-- The named values of a table, in order of appearance. -/
abbrev Entries := List (String × Toml)

/-- A reader takes a value off the front of a text, or refuses the text. -/
abbrev Reader (α : Type) := List Char → Option (α × List Char)

/-- The value with a name. -/
def find? (entries : Entries) (name : String) : Option Toml :=
  entries.lookup name

/-- The entries in which a name has a value, in its old place if it had one. -/
def put (entries : Entries) (name : String) (value : Toml) : Entries :=
  match entries with
  | [] => [(name, value)]
  | (other, old) :: rest =>
      if other = name then (name, value) :: rest
        else (other, old) :: put rest name value

end Toml

end DeltaGraph
