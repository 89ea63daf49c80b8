/-!
# Versions of the edge set

A graph holds at most one pending batch of edge changes.  Each edge has a
history in that batch, and the four versions of the edge set are read off the
histories:

| history            | permanent | additions | removals | merged |
|--------------------|-----------|-----------|----------|--------|
| `committed`        | yes       |           |          | yes    |
| `added`            |           | yes       |          | yes    |
| `removed`          | yes       |           | yes      |        |
| `addedThenRemoved` |           | yes       | yes      |        |
| `removedThenAdded` | yes       | yes       | yes      | yes    |

An edge that the batch added and removed again is in both difference versions,
and so is one that it removed and added again.
-/

namespace DeltaGraph

/-- A view of the edges relative to the pending batch. -/
inductive Version
  /-- The committed edges, as of the start of the batch. -/
  | permanent
  /-- The edges that the batch added. -/
  | additions
  /-- The edges that the batch removed. -/
  | removals
  /-- The edges as they will be once the batch is committed. -/
  | merged
  deriving DecidableEq

namespace Version

/-- The name of a version in plan descriptions. -/
def name : Version → String
  | permanent => "PERMANENT"
  | additions => "DIFF_PLUS"
  | removals => "DIFF_MINUS"
  | merged => "MERGED"

/-- Whether the version holds changes of the batch only. -/
def isDifference : Version → Bool
  | permanent => false
  | additions => true
  | removals => true
  | merged => false

/-- All versions. -/
def all : List Version := [permanent, additions, removals, merged]

end Version

/-- How the pending batch touched an edge. -/
inductive EdgeHistory
  /-- Committed before the batch, which leaves it in place. -/
  | committed
  | added
  | removed
  | addedThenRemoved
  | removedThenAdded
  deriving DecidableEq

namespace EdgeHistory

/-- The name of a history. -/
def name : EdgeHistory → String
  | committed => "Permanent"
  | added => "Added"
  | removed => "Deleted"
  | addedThenRemoved => "AddedThenDeleted"
  | removedThenAdded => "DeletedThenAdded"

/-- Whether an edge with the history belongs to a version. -/
def visible : EdgeHistory → Version → Bool
  | committed, .permanent => true
  | committed, .additions => false
  | committed, .removals => false
  | committed, .merged => true
  | added, .permanent => false
  | added, .additions => true
  | added, .removals => false
  | added, .merged => true
  | removed, .permanent => true
  | removed, .additions => false
  | removed, .removals => true
  | removed, .merged => false
  | addedThenRemoved, .permanent => false
  | addedThenRemoved, .additions => true
  | addedThenRemoved, .removals => true
  | addedThenRemoved, .merged => false
  | removedThenAdded, _ => true

/-- The history once the batch adds the edge. -/
def add : EdgeHistory → EdgeHistory
  | committed => committed
  | added => added
  | removed => removedThenAdded
  | addedThenRemoved => added
  | removedThenAdded => removedThenAdded

/-- The history once the batch removes the edge, if there is one to remove. -/
def remove? : EdgeHistory → Option EdgeHistory
  | committed => some removed
  | added => some addedThenRemoved
  | removed => none
  | addedThenRemoved => none
  | removedThenAdded => some removed

/-- All histories. -/
def all : List EdgeHistory :=
  [committed, added, removed, addedThenRemoved, removedThenAdded]

/-- Added edges are seen after the batch. -/
@[simp] theorem visible_merged_add (history : EdgeHistory) :
    history.add.visible .merged = true := by
  cases history <;> rfl

/-- Adding an edge leaves the committed edges alone. -/
@[simp] theorem visible_permanent_add (history : EdgeHistory) :
    history.add.visible .permanent = history.visible .permanent := by
  cases history <;> rfl

/-- There is an edge to remove exactly if it would be seen after the batch. -/
theorem isSome_remove? (history : EdgeHistory) :
    history.remove?.isSome = history.visible .merged := by
  cases history <;> rfl

/-- Removed edges are not seen after the batch, and the committed edges are
left alone. -/
theorem visible_of_remove? {history next : EdgeHistory}
    (removed : history.remove? = some next) :
    next.visible .merged = false ∧
      next.visible .permanent = history.visible .permanent := by
  cases history <;> cases removed <;> exact ⟨rfl, rfl⟩

end EdgeHistory

/-- The direction in which an edge is followed from a known vertex. -/
inductive Direction
  /-- The known vertex is the source. -/
  | forward
  /-- The known vertex is the target. -/
  | backward
  deriving DecidableEq

/-- The name of a direction in plan descriptions. -/
def Direction.name : Direction → String
  | forward => "FORWARD"
  | backward => "BACKWARD"

end DeltaGraph
