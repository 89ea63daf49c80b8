import DeltaGraph.Id

/-!
# Result rows

A row binds the variables of a pattern to vertices and its relations to edges.
An event is a row together with what happened to it.
-/

namespace DeltaGraph

/-- How a row relates to the result of a pattern. -/
inductive RowKind
  /-- A row of the result. -/
  | matched
  /-- A row that entered the result with a batch. -/
  | emerged
  /-- A row that left the result with a batch. -/
  | deleted
  deriving DecidableEq

/-- The label of a kind. -/
def RowKind.label : RowKind → String
  | matched => "MATCHED"
  | emerged => "EMERGED"
  | deleted => "DELETED"

/-- All kinds. -/
def RowKind.all : List RowKind := [matched, emerged, deleted]

/-- The bound vertices in the order of the pattern's variables, and the bound
edges in the order of its relations. -/
structure Row where
  vertices : List VertexId
  edges : List EdgeId
  deriving DecidableEq

/-- A row and what happened to it. -/
structure Event where
  kind : RowKind
  row : Row
  deriving DecidableEq

/-- Decimal numbers separated by commas. -/
def numberList {kind : Numbered} (ids : List (Id kind)) : String :=
  ",".intercalate (ids.map Id.text)

namespace Row

/-- The text of a row. -/
def text (row : Row) : String :=
  "v=[" ++ numberList row.vertices ++ "] e=[" ++ numberList row.edges ++ "]"

/-- The lexicographic order of lists of numbers, in which a list follows those
that it extends. -/
def compareIds {kind : Numbered} : List (Id kind) → List (Id kind) → Ordering
  | [], [] => .eq
  | [], _ :: _ => .lt
  | _ :: _, [] => .gt
  | left :: lefts, right :: rights =>
      (compare left right).then (compareIds lefts rights)

/-- Rows are ordered by their vertices and then by their edges. -/
instance : Ord Row where
  compare left right :=
    (compareIds left.vertices right.vertices).then
      (compareIds left.edges right.edges)

/-- The members of a list in ascending order, each once. -/
def ascending (rows : List Row) : List Row :=
  (rows.mergeSort fun left right => (compare left right).isLE).eraseReps

end Row

namespace Event

/-- The text of an event. -/
def text (event : Event) : String :=
  event.kind.label ++ " " ++ event.row.text

/-- An event as a JSON object. -/
def json (event : Event) : String :=
  "\x7b\"kind\":\"" ++ event.kind.label ++ "\",\"vertices\":[" ++
    numberList event.row.vertices ++ "],\"edges\":[" ++
    numberList event.row.edges ++ "]\x7d"

end Event

end DeltaGraph
