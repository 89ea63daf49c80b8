import DeltaGraph.Graph.Batch
import DeltaGraph.Store

/-!
# Batches of changes in a store

A step of a batch changes the tables of a store one by one, and a step that
fails may have changed some of them.  The end of a batch goes through the list
of the edges that it touched: each of them is settled or dropped from all
tables.
-/

namespace DeltaGraph

/-- What is stored of an edge once the batch has added it with values. -/
def StoredEdge.add (stored : StoredEdge)
    (values : List (PropertyId × Value)) : StoredEdge :=
  { stored with
    history := stored.history.add
    properties := stored.properties.setAll values }

namespace Store

/-- Notes what a vertex was like before the batch. -/
def remember (store : Store) (vertex : VertexId) : Store :=
  if store.undo.contains vertex then store
  else
    { store with undo := store.undo.insert vertex store.vertices[vertex]? }

/-- Whether a vertex that the batch touched was known before. -/
def isCommitted (store : Store) (vertex : VertexId) : Bool :=
  match store.undo[vertex]? with
  | some (some _) => true
  | some none => false
  | none => false

/-- Sets what is known about a vertex. -/
def setVertex (store : Store) (vertex : VertexId) (content : Vertex) : Store :=
  { store with vertices := store.vertices.insert vertex content }

/-- Makes a vertex known and gives it a type, if one is given, and values.  A
vertex that was known before the batch takes none but its own. -/
def putVertex (vertex : VertexId) (type : Option TypeId)
    (values : List (PropertyId × Value)) :
    ExceptT Error (StateM Store) Unit := do
  modify (·.remember vertex)
  let stored := (← get).vertices.getD vertex {}
  modify (·.setVertex vertex stored)
  if (← get).isCommitted vertex then
    match Graph.vertexConflict? vertex stored type values with
    | some conflict => throw (.invalid conflict)
    | none => pure ()
  else
    modify (·.setVertex vertex
      ⟨type.getD stored.type, stored.properties.setAll values⟩)

/-- Adds an edge to the list of the edges that the batch touched, unless it is
there. -/
def touch (store : Store) (id : EdgeId) : Store :=
  if store.seen.contains id then store
  else
    { store with
      seen := store.seen.insert id
      batch := store.batch ++ [id] }

/-- Puts a new edge into the tables. -/
def track (store : Store) (link : Link) : EdgeId × Store :=
  let id : EdgeId := ⟨store.freshEdge⟩
  (id,
    { store with
      freshEdge := store.freshEdge + 1
      ids := store.ids.insert link id
      edges := store.edges.insert id { link, history := .added }
      outgoing := store.outgoing.add link.source ⟨link.target, link.type, id⟩
      incoming :=
        store.incoming.add link.target ⟨link.source, link.type, id⟩ })

/-- The number of an edge, which is tracked if it is new. -/
def number (store : Store) (link : Link) : EdgeId × Store :=
  match store.ids[link]? with
  | some id => (id, store)
  | none => store.track link

/-- Changes a tracked edge. -/
def rewrite (store : Store) (id : EdgeId)
    (change : StoredEdge → StoredEdge) : Store :=
  match store.edges[id]? with
  | some stored =>
      { store with edges := store.edges.insert id (change stored) }
  | none => store

/-- The property of a committed edge that would get another value. -/
def edgeConflict? (store : Store) (link : Link)
    (values : List (PropertyId × Value)) : Option PropertyId := do
  let stored ← store.edges[← store.ids[link]?]?
  if stored.history.visible .permanent then
    stored.properties.conflict? values
  else none

/-- Adds an edge with values, and makes its ends known. -/
def addEdge (link : Link) (values : List (PropertyId × Value)) :
    ExceptT Error (StateM Store) EdgeId := do
  match (← get).edgeConflict? link values with
  | some property =>
      throw (.invalid (.changedEdge link.source link.target property))
  | none =>
      putVertex link.source none []
      putVertex link.target none []
      let id ← modifyGet (·.number link)
      modify (·.touch id)
      modify (·.rewrite id (·.add values))
      return id

/-- Removes an edge; tells whether there was one to remove. -/
def removeEdge (link : Link) : StateM Store Bool :=
  modifyGet fun store =>
    match store.ids[link]? with
    | none => (false, store)
    | some id =>
        match (store.edges[id]?).bind (·.history.remove?) with
        | none => (false, store)
        | some history =>
            (true, (store.touch id).rewrite id ({ · with history }))

/-- Takes an edge out of all tables. -/
def dropEdge (store : Store) (id : EdgeId) : Store :=
  match store.edges[id]? with
  | none => store
  | some { link, .. } =>
      { store with
        edges := store.edges.erase id
        ids := store.ids.erase link
        outgoing := store.outgoing.drop link.source link.target link.type
        incoming := store.incoming.drop link.target link.source link.type }

/-- Settles an edge: it is committed from now on. -/
def settleEdge (store : Store) (id : EdgeId) : Store :=
  store.rewrite id ({ · with history := .committed })

/-- Forgets what belongs to the batch. -/
def clearBatch (store : Store) : Store :=
  { store with seen := ∅, undo := ∅ }

/-- Commits one of the edges that the batch touched: it stays if it belongs to
the merged version.  Counts what came and what went. -/
def commitEdge (progress : CommitSummary × Store) (id : EdgeId) :
    CommitSummary × Store :=
  let (summary, store) := progress
  match (store.edges[id]?).map StoredEdge.history with
  | none => (summary, store)
  | some history =>
      if history.visible .merged then
        let new := history ≠ .committed && !history.visible .permanent
        (if new then { summary with promoted := summary.promoted + 1 }
          else summary, store.settleEdge id)
      else
        (if history.visible .permanent then
            { summary with removed := summary.removed + 1 }
          else summary, store.dropEdge id)

/-- Commits the batch. -/
def commit (store : Store) : CommitSummary × Store :=
  let (summary, settled) := store.batch.foldl commitEdge
    ({ touched := store.batch.length }, { store with batch := [] })
  (summary, settled.clearBatch)

/-- Rolls back one of the edges that the batch touched: it is dropped if the
batch brought it. -/
def rollbackEdge (store : Store) (id : EdgeId) : Store :=
  match (store.edges[id]?).map StoredEdge.history with
  | none => store
  | some .added => store.dropEdge id
  | some .addedThenRemoved => store.dropEdge id
  | some .committed => store.settleEdge id
  | some .removed => store.settleEdge id
  | some .removedThenAdded => store.settleEdge id

/-- Makes a vertex what it was before the batch. -/
def restoreVertex (vertices : Std.ExtTreeMap VertexId Vertex)
    (vertex : VertexId) : Option Vertex → Std.ExtTreeMap VertexId Vertex
  | some content => vertices.insert vertex content
  | none => vertices.erase vertex

/-- Discards the batch.  Also gives the number of edges that the batch had
touched. -/
def rollback (store : Store) : Nat × Store :=
  let settled := store.batch.foldl rollbackEdge { store with batch := [] }
  (store.batch.length,
    { settled with
      vertices := settled.undo.foldl restoreVertex settled.vertices
      : Store }.clearBatch)

end Store

end DeltaGraph
