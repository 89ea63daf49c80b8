import DeltaGraph.Id

/-!
# Adjacency lists

An adjacency list holds the edges at a vertex in one direction, in order of
the vertices at their other ends and, for the same vertex, of their types.  It
is kept in an array, and places in it are found by halving.
-/

namespace DeltaGraph

/-- The first place between two bounds that fails a test, found by halving.
The test has to hold up to that place and to fail from there on. -/
def bisect (test : Nat → Bool) (low high : Nat) : Nat :=
  if low < high then
    let middle := low + (high - low) / 2
    if test middle then bisect test (middle + 1) high
    else bisect test low middle
  else low
termination_by high - low

/-- An edge as it is seen from one of its ends. -/
structure Adjacent where
  /-- The vertex at the other end. -/
  neighbor : VertexId
  type : TypeId
  edge : EdgeId
  deriving DecidableEq

namespace Adjacent

/-- Whether the entry is the one for a neighbor and a type. -/
def isFor (entry : Adjacent) (neighbor : VertexId) (type : TypeId) : Bool :=
  entry.neighbor = neighbor && entry.type = type

/-- Whether the entry comes before the one for a neighbor and a type. -/
def isBefore (entry : Adjacent) (neighbor : VertexId) (type : TypeId) :
    Bool :=
  entry.neighbor < neighbor ||
    entry.neighbor = neighbor && entry.type < type

/-- Whether the edge has the type, if one is asked for. -/
def hasType (entry : Adjacent) (type : Option TypeId) : Bool :=
  type.all (· == entry.type)

end Adjacent

/-- The edges at a vertex in one direction. -/
structure AdjacencyList where
  entries : Array Adjacent := #[]

namespace AdjacencyList

/-- The first place whose entry fails a test. -/
def partitionPoint (list : AdjacencyList) (test : Adjacent → Bool) : Nat :=
  bisect (fun place => (list.entries[place]?).any test) 0 list.entries.size

/-- The place of the entry for a neighbor and a type or, if there is none, the
place where it belongs. -/
def position (list : AdjacencyList) (neighbor : VertexId) (type : TypeId) :
    Except Nat Nat :=
  let place := list.partitionPoint (·.isBefore neighbor type)
  if (list.entries[place]?).any (·.isFor neighbor type) then .ok place
  else .error place

/-- Puts an entry into the list, in place of the one for the same neighbor and
type. -/
def insert (list : AdjacencyList) (entry : Adjacent) : AdjacencyList :=
  match list.position entry.neighbor entry.type with
  | .ok place => ⟨list.entries.setIfInBounds place entry⟩
  | .error place => ⟨list.entries.insertIdxIfInBounds place entry⟩

/-- Takes the entry for a neighbor and a type out of the list. -/
def remove (list : AdjacencyList) (neighbor : VertexId) (type : TypeId) :
    Option Adjacent × AdjacencyList :=
  match list.position neighbor type with
  | .ok place =>
      (list.entries[place]?, ⟨list.entries.eraseIdxIfInBounds place⟩)
  | .error _ => (none, list)

/-- The entries for a neighbor, in order of their types. -/
def toNeighbor (list : AdjacencyList) (neighbor : VertexId) : List Adjacent :=
  let start := list.partitionPoint (·.neighbor < neighbor)
  let stop := list.partitionPoint (·.neighbor ≤ neighbor)
  (list.entries.extract start stop).toList

/-- Whether the list has no entries. -/
def isEmpty (list : AdjacencyList) : Bool :=
  list.entries.isEmpty

end AdjacencyList

/-- The adjacency lists of vertices in one direction. -/
abbrev AdjacencyMap := Std.ExtTreeMap VertexId AdjacencyList

namespace AdjacencyMap

/-- Puts an entry into the list of a vertex. -/
def add (lists : AdjacencyMap) (vertex : VertexId) (entry : Adjacent) :
    AdjacencyMap :=
  lists.insert vertex ((lists.getD vertex {}).insert entry)

/-- Takes an entry out of the list of a vertex.  A list that has no entries
left is dropped. -/
def drop (lists : AdjacencyMap) (vertex neighbor : VertexId) (type : TypeId) :
    AdjacencyMap :=
  match lists[vertex]? with
  | none => lists
  | some list =>
      let kept := (list.remove neighbor type).2
      if kept.isEmpty then lists.erase vertex else lists.insert vertex kept

end AdjacencyMap

end DeltaGraph
