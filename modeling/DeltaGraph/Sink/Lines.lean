import DeltaGraph.Sink

/-!
# Reading lines back

The lines of both formats have the same parts: the label of the kind, the list
of the vertices and the list of the edges, with fixed texts around them.  A line
is read part by part, and a text line by line.
-/

namespace DeltaGraph

/-- The fixed texts around the parts of a line. -/
structure LineLayout where
  opening : String
  beforeVertices : String
  beforeEdges : String
  closing : String

/-- The fixed texts of a format. -/
def LineFormat.layout : LineFormat → LineLayout
  | text => ⟨"", " v=", " e=", ""⟩
  | json => ⟨"\x7b\"kind\":\"", "\",\"vertices\":", ",\"edges\":", "\x7d"⟩

/-- The lines of events, each with its line end. -/
def LineFormat.lines (format : LineFormat) (events : List Event) : String :=
  String.join (events.map fun event => format.line event ++ "\n")

/-- The text after a given beginning. -/
def after? : (beginning chars : List Char) → Option (List Char)
  | [], chars => some chars
  | _ :: _, [] => none
  | first :: rest, char :: chars =>
      if first = char then after? rest chars else none

/-- Reads the label of a kind. -/
def RowKind.read? (chars : List Char) : Option (RowKind × List Char) :=
  RowKind.all.findSome? fun kind =>
    (after? kind.label.toList chars).map (kind, ·)

/-- The number with the given decimal digits. -/
def Id.ofDigits? {kind : Numbered} (digits : List Char) : Option (Id kind) :=
  if !digits.isEmpty && digits.all Char.isDigit then
    some ⟨Nat.ofDigitChars 10 digits 0⟩
  else none

/-- The numbers between commas. -/
def Id.ofList? {kind : Numbered} : List Char → Option (List (Id kind))
  | [] => some []
  | chars => (chars.splitOn ',').mapM Id.ofDigits?

/-- Reads a list of numbers in brackets. -/
def Id.readList? {kind : Numbered} (chars : List Char) :
    Option (List (Id kind) × List Char) := do
  let chars ← after? ['['] chars
  let ids ← Id.ofList? (chars.takeWhile (· != ']'))
  return (ids, ← after? [']'] (chars.dropWhile (· != ']')))

/-- Reads a line. -/
def LineLayout.read?
    (layout : LineLayout)
    (chars : List Char) : Option Event := do
  let chars ← after? layout.opening.toList chars
  let (kind, chars) ← RowKind.read? chars
  let chars ← after? layout.beforeVertices.toList chars
  let (vertices, chars) ← Id.readList? chars
  let chars ← after? layout.beforeEdges.toList chars
  let (edges, chars) ← Id.readList? chars
  if chars = layout.closing.toList then some ⟨kind, ⟨vertices, edges⟩⟩ else none

/-- The events of the lines of a text, each of which has a line end. -/
def LineFormat.events?
    (format : LineFormat)
    (text : String) : Option (List Event) :=
  match (text.toList.splitOn '\n').reverse with
  | [] :: lines => lines.reverse.mapM format.layout.read?
  | _ => none

end DeltaGraph
