import DeltaGraph.Toml.Moment
import DeltaGraph.Toml.Number

/-!
# TOML statements

A document is a sequence of statements: headers, which open tables, and pairs
of a key and a value.  Values nest up to a fixed depth, and keys have a bounded
number of parts.
-/

namespace DeltaGraph
namespace Toml

/-- A key of one part and the parts before it. -/
structure Path where
  parents : List String
  last : String
  deriving DecidableEq

/-- A statement of a document. -/
inductive Statement
  /-- A header of a table. -/
  | table (path : Path)
  /-- A header of one more table with a repeated name. -/
  | element (path : Path)
  /-- A key and its value. -/
  | pair (path : Path) (value : Toml)

/-- Arrays and inline tables nest at most this deep. -/
def maxDepth : Nat := 79

/-- Keys have at most this many parts. -/
def maxParts : Nat := 79

/-- A character of a key without quotes. -/
def isBare (char : Char) : Bool :=
  char.isAlphanum || char == '_' || char == '-'

/-- A character of a number, a moment or a word. -/
def isTokenChar (char : Char) : Bool :=
  isBare char || char == '+' || char == '.' || char == ':'

/-- One part of a key. -/
def readKeyPart (chars : List Char) : Option (String × List Char) :=
  match chars with
  | '"' :: _ => readLineString chars
  | '\'' :: _ => readLineString chars
  | _ =>
      let name := chars.takeWhile isBare
      if name.isEmpty then none
        else some (String.ofList name, chars.dropWhile isBare)

/-- The parts of a key, separated by dots; `count` bounds their number. -/
def readKeyParts : (count : Nat) → Reader (List String)
  | 0, _ => none
  | count + 1, chars => do
      let (part, rest) ← readKeyPart (skipBlanks chars)
      match skipBlanks rest with
      | '.' :: more => do
          let (parts, rest) ← readKeyParts count more
          return (part :: parts, rest)
      | rest => return ([part], rest)

/-- A key. -/
def readKey : Reader Path := fun chars => do
  let (parts, rest) ← readKeyParts maxParts chars
  return (⟨parts.dropLast, ← parts.getLast?⟩, rest)

/-- The value of a token. -/
def tokenValue? (token : List Char) : Option Toml :=
  if token = ['t', 'r', 'u', 'e'] then some (.boolean true)
  else if token = ['f', 'a', 'l', 's', 'e'] then some (.boolean false)
  else if isMoment token then some (.moment (String.ofList token))
  else (integer? token).map .integer <|> (float? token).map .float

/-- A token; a date takes a following time of day with it. -/
def takeToken (chars : List Char) : List Char × List Char :=
  let token := chars.takeWhile isTokenChar
  match isDate token, chars.dropWhile isTokenChar with
  | true, ' ' :: digit :: rest =>
      if digit.isDigit then
        (token ++ ' ' :: (digit :: rest).takeWhile isTokenChar,
          (digit :: rest).dropWhile isTokenChar)
      else (token, ' ' :: digit :: rest)
  | _, rest => (token, rest)

/-- The items of an array up to its end; `count` bounds their number. -/
def readItems (item : Reader Toml) : (count : Nat) → Reader (List Toml)
  | 0, _ => none
  | count + 1, chars =>
      match skipLines false chars with
      | ']' :: rest => some ([], rest)
      | chars => do
          let (first, rest) ← item chars
          match skipLines false rest with
          | ']' :: rest => return ([first], rest)
          | ',' :: rest => do
              let (more, rest) ← readItems item count rest
              return (first :: more, rest)
          | _ => none

/-- A key, an equals sign and a value. -/
def readPair (item : Reader Toml) : Reader (Path × Toml) := fun chars => do
  let (path, rest) ← readKey chars
  match rest with
  | '=' :: rest => do
      let (value, rest) ← item (skipBlanks rest)
      return ((path, value), rest)
  | _ => none

/-- The pairs of an inline table up to its end; `count` bounds their number. -/
def readPairs (item : Reader Toml) : (count : Nat) → Reader (List (Path × Toml))
  | 0, _ => none
  | count + 1, chars => do
      let (first, rest) ← readPair item chars
      match skipBlanks rest with
      | '\x7d' :: rest => return ([first], rest)
      | ',' :: rest => do
          let (more, rest) ← readPairs item count rest
          return (first :: more, rest)
      | _ => none

/-- The entries in which a dotted key has a value.  The key may run through
tables that dotted keys made or headers implied, and through the last of the
tables of a repeated header, but the table that gets the value has to be made by
a dotted key; `ends` tells whether the present one may get it. -/
def putPair (value : Toml) (last : String) (ends : Bool) :
    List String → Entries → Option Entries
  | [], entries =>
      if ends && (find? entries last).isNone then some (put entries last value)
        else none
  | name :: names, entries =>
      match find? entries name with
      | none => do
          let inner ← putPair value last true names []
          return put entries name (.table .dotted inner)
      | some (.table .dotted inner) => do
          let inner ← putPair value last true names inner
          return put entries name (.table .dotted inner)
      | some (.table .implied inner) => do
          let inner ← putPair value last false names inner
          return put entries name (.table .implied inner)
      | some (.tables elements) => do
          let inner ← putPair value last false names (← elements.getLast?)
          return put entries name (.tables (elements.dropLast ++ [inner]))
      | some _ => none

/-- The entries of an inline table. -/
def inlineEntries? (pairs : List (Path × Toml)) : Option Entries :=
  pairs.foldlM (fun entries (path, value) =>
    putPair value path.last true path.parents entries) []

/-- A value in which arrays and inline tables nest up to a depth and have at
most `limit` members. -/
def readValue (limit : Nat) : (depth : Nat) → Reader Toml
  | depth, chars =>
      match depth, chars with
      | depth + 1, '[' :: rest => do
          let (items, rest) ← readItems (readValue limit depth) limit rest
          return (.array items, rest)
      | depth + 1, '\x7b' :: rest =>
          match skipBlanks rest with
          | '\x7d' :: rest => some (.table .inlined [], rest)
          | _ => do
              let (pairs, rest) ← readPairs (readValue limit depth) limit rest
              return (.table .inlined (← inlineEntries? pairs), rest)
      | _, '"' :: _ =>
          (readString chars).map fun (text, rest) => (.string text, rest)
      | _, '\'' :: _ =>
          (readString chars).map fun (text, rest) => (.string text, rest)
      | _, _ =>
          let (token, rest) := takeToken chars
          (tokenValue? token).map (·, rest)

/-- A statement; `limit` bounds the members of arrays and inline tables. -/
def readStatement (limit : Nat) : Reader Statement := fun chars =>
  match chars with
  | '[' :: '[' :: rest => do
      let (path, rest) ← readKey rest
      match rest with
      | ']' :: ']' :: rest => return (.element path, rest)
      | _ => none
  | '[' :: rest => do
      let (path, rest) ← readKey rest
      match rest with
      | ']' :: rest => return (.table path, rest)
      | _ => none
  | _ => do
      let ((path, value), rest) ← readPair (readValue limit maxDepth) chars
      return (.pair path value, rest)

/-- The statements of a document; `count` bounds the number of lines, and
`limit` the members of arrays and inline tables. -/
def readStatements (limit : Nat) :
    (count : Nat) → List Char → Option (List Statement)
  | 0, _ => none
  | count + 1, chars =>
      match skipBlanks chars with
      | [] => some []
      | chars =>
          match lineEnd? chars with
          | some rest => readStatements limit count rest
          | none => do
              let (first, rest) ← readStatement limit chars
              let rest ← lineEnd? rest
              return first :: (← readStatements limit count rest)

end Toml

end DeltaGraph
