import DeltaGraph.Execution

/-!
# The pull pipeline

A plan can also be executed by pulling.  Each operator is a stream that is asked
for one tuple at a time and asks the stream before it when it has nothing left
to give: the scan comes first, then one extension for each further stage, the
resolution to edges and, if the plan has conditions, the filter.  The sink asks
the last stream until it ends, and every request leaves the streams in another
state.
-/

namespace DeltaGraph

/-- The vertices and the edges that the slots of a plan are bound to. -/
structure Binding where
  vertices : List VertexId
  edges : List EdgeId := []
  deriving DecidableEq

/-- Binds one more slot. -/
def Binding.push (tuple : Binding) (vertex : VertexId) : Binding :=
  { tuple with vertices := tuple.vertices ++ [vertex] }

/-- A stream of tuples. -/
structure TupleStream (σ : Type) where
  State : Type
  start : State
  /-- The next tuple and the state after it, if there is a further tuple. -/
  next : State → Execution σ (Option (Binding × State))

/-- What a stream does with the tuples of the stream before it. -/
structure Relay (σ : Type) where
  /-- What is made of one tuple. -/
  Buffer : Type
  /-- What is kept from one tuple to the next. -/
  Memory : Type
  blank : Memory
  fill : Memory → Binding → Execution σ (Buffer × Memory)
  /-- The next tuple of a buffer and what is left of it. -/
  take? : Buffer → Option (Binding × Buffer)

namespace TupleStream

variable {σ : Type}

/-- Hands the tuples of a stream on until it ends. -/
def drain (stream : TupleStream σ) (consume : Binding → Execution σ Unit)
    (state : stream.State) : Execution σ Unit := fun progress =>
  match stream.next state progress with
  | (.error error, later) => (.error error, later)
  | (.ok none, later) => (.ok (), later)
  | (.ok (some (tuple, rest)), later) =>
      match consume tuple later with
      | (.error error, last) => (.error error, last)
      | (.ok _, last) => stream |>.drain consume rest last
partial_fixpoint

end TupleStream

namespace Relay

variable {σ : Type}

/-- The state of a relay between two requests. -/
structure Standing (relay : Relay σ) (input : TupleStream σ) where
  input : input.State
  current : Option relay.Buffer
  memory : relay.Memory

/-- Takes a tuple from the buffer.  A buffer with none left is filled from the
next tuple of the input. -/
def advance (relay : Relay σ) (input : TupleStream σ)
    (state : relay.Standing input) :
    Execution σ (Option (Binding × relay.Standing input)) := fun progress =>
  match state.current.bind relay.take? with
  | some (tuple, left) =>
      (.ok (some (tuple, { state with current := some left })), progress)
  | none =>
      match input.next state.input progress with
      | (.error error, later) => (.error error, later)
      | (.ok none, later) => (.ok none, later)
      | (.ok (some (base, rest)), later) =>
          match relay.fill state.memory base later with
          | (.error error, last) => (.error error, last)
          | (.ok (buffer, memory), last) =>
              relay |>.advance input ⟨rest, some buffer, memory⟩ last
partial_fixpoint

/-- The stream of a relay behind another stream. -/
def onto (relay : Relay σ) (input : TupleStream σ) : TupleStream σ where
  State := relay.Standing input
  start := ⟨input.start, none, relay.blank⟩
  next := relay.advance input

end Relay

/-! ## Candidates -/

/-- The common members of two ascending lists, had by reading both side by side.
The smaller of the two next members is passed over, and both are if they are the
same. -/
def mergeCommon : List VertexId → List VertexId → List VertexId
  | left :: lefts, right :: rights =>
      match compare left right with
      | .lt => mergeCommon lefts (right :: rights)
      | .gt => mergeCommon (left :: lefts) rights
      | .eq => left :: mergeCommon lefts rights
  | _, _ => []
termination_by lefts rights => lefts.length + rights.length

/-- The common members of ascending lists.  No list is read after the common
members have run out. -/
def intersectAll : List VertexId → List (List VertexId) → List VertexId
  | common, [] => common
  | common, list :: rest =>
      match mergeCommon common list with
      | [] => []
      | remaining => intersectAll remaining rest

namespace Stage

/-- The lists of neighbors that the rules read, in order, or none if one of them
is empty. -/
def gather (walkable : WalkableGraph) (bound : List VertexId) :
    Stage → Except Error (Option (List (List VertexId)))
  | [] => .ok (some [])
  | rule :: rest =>
      match rule.neighbors walkable bound with
      | .error error => .error error
      | .ok [] => .ok none
      | .ok neighbors =>
          match gather walkable bound rest with
          | .error error => .error error
          | .ok none => .ok none
          | .ok (some lists) => .ok (some (neighbors :: lists))

/-- The vertices that all rules admit, where the shortest lists are intersected
first. -/
def shortestFirst
    (stage : Stage)
    (walkable : WalkableGraph)
    (bound : List VertexId) :
    Except Error (List VertexId) :=
  match stage.gather walkable bound with
  | .error error => .error error
  | .ok none => .ok []
  | .ok (some lists) =>
      match lists.mergeSort (·.length ≤ ·.length) with
      | [] => .ok []
      | shortest :: rest => .ok (intersectAll shortest rest)

end Stage

/-- The candidates for the next slot of a tuple, with the position of the next
candidate. -/
structure Pending where
  base : Binding
  candidates : List VertexId
  next : Nat := 0

/-- The tuple that binds the next candidate. -/
def Pending.take? (pending : Pending) : Option (Binding × Pending) :=
  pending.candidates[pending.next]?.map fun candidate =>
    (pending.base.push candidate, { pending with next := pending.next + 1 })

/-! ## Choices of edges -/

/-- The edges that the relations of a tuple can be resolved to, with the
positions of the next choice. -/
structure EdgeChoices where
  base : Binding
  choices : List (List EdgeId)
  cursor : List Nat
  exhausted : Bool

namespace EdgeChoices

/-- The choices of a tuple, before the first one. -/
def ofTuple (base : Binding) (choices : List (List EdgeId)) : EdgeChoices where
  base
  choices
  cursor := choices.map fun _ => 0
  exhausted := choices.any List.isEmpty

/-- Moves the last position on, and from each one that has reached its end
carries over into the one before it.  Whether all positions have reached their
ends comes with the new ones. -/
def carry : List (List EdgeId) → List Nat → List Nat × Bool
  | edges :: choices, position :: cursor =>
      match carry choices cursor with
      | (moved, false) => (position :: moved, false)
      | (moved, true) =>
          if position + 1 < edges.length then ((position + 1) :: moved, false)
          else (0 :: moved, true)
  | _, cursor => (cursor, true)

/-- The edges at the positions. -/
def chosen (choices : List (List EdgeId)) (cursor : List Nat) : List EdgeId :=
  (cursor.zip choices).filterMap fun (position, edges) => edges[position]?

/-- The tuple of the next choice. -/
def take? (state : EdgeChoices) : Option (Binding × EdgeChoices) :=
  if state.exhausted then none
  else
    let (cursor, exhausted) := carry state.choices state.cursor
    some ({ state.base with edges := chosen state.choices state.cursor },
      { state with cursor, exhausted })

end EdgeChoices

/-- The vertex that a column shows. -/
def Binding.shown (tuple : Binding) (column : Nat) : Except Error VertexId :=
  match tuple.vertices[column]? with
  | some vertex => .ok vertex
  | none => .error (.violated (.unboundColumn column))

/-- The row of a tuple, if all columns show bound slots. -/
def Plan.outputRow (plan : Plan) (tuple : Binding) : Except Error Row := do
  let vertices ← plan.columns.mapM tuple.shown
  return ⟨vertices, tuple.edges⟩

namespace Job

open Execution

variable {σ : Type}

/-! ## The streams of a plan -/

/-- The sources that are left to the scan, once they have been asked for, and
the candidates of the current one. -/
structure ScanState where
  sources : Option (List VertexId) := none
  current : Option Pending := none

/-- The first pair from the remaining sources. -/
def pairFrom
    (job : Job σ)
    (stage : Stage)
    (sourceType targetType : Option TypeId) :
    List VertexId → Except Error (Option (Binding × ScanState))
  | [] => .ok none
  | source :: rest =>
      if job.walkable.graph.hasType sourceType source then
        match stage.shortestFirst job.walkable [source] with
        | .error error => .error error
        | .ok admitted =>
            let candidates :=
              admitted.filter (job.walkable.graph.hasType targetType)
            match (Pending.mk ⟨[source], []⟩ candidates 0).take? with
            | some (tuple, left) => .ok (some (tuple, ⟨some rest, some left⟩))
            | none => pairFrom job stage sourceType targetType rest
      else pairFrom job stage sourceType targetType rest

/-- The next pair of scanned vertices. -/
def nextPair
    (job : Job σ)
    (stage : Stage)
    (sourceType targetType : Option TypeId)
    (state : ScanState) : Except Error (Option (Binding × ScanState)) :=
  match state.current.bind Pending.take? with
  | some (tuple, left) =>
      .ok (some (tuple, { state with current := some left }))
  | none =>
      match state.sources, stage with
      | some sources, _ => job.pairFrom stage sourceType targetType sources
      | none, first :: _ =>
          job.pairFrom stage sourceType targetType
            (job.walkable.graph.sources first.version first.direction)
      | none, [] => .ok none

/-- The stream of scanned pairs. -/
def scanStream
    (job : Job σ)
    (stage : Stage)
    (sourceType targetType : Option TypeId) :
    TupleStream σ where
  State := ScanState
  start := {}
  next state := do
    let pair := job.nextPair stage sourceType targetType state
    countScan
    liftM pair

/-- The candidates for the next slot of a tuple, and the list of all vertices if
it is kept for the next time. -/
def candidates (job : Job σ) (stage : Stage) (type : Option TypeId)
    (vertexIds : Option (List VertexId)) (base : Binding) :
    Except Error (List VertexId × Option (List VertexId)) :=
  if stage.isEmpty then
    let all := vertexIds.getD job.walkable.graph.vertexIds
    .ok (all.filter (job.walkable.graph.hasType type), some all)
  else
    (stage.shortestFirst job.walkable base.vertices).map fun admitted =>
      (admitted.filter (job.walkable.graph.hasType type), vertexIds)

/-- Binds the slot of a stage. -/
def extension
    (job : Job σ)
    (stage : Stage)
    (type : Option TypeId) : Relay σ where
  Buffer := Pending
  Memory := Option (List VertexId)
  blank := none
  fill vertexIds base := do
    count fun counters => { counters with extend := counters.extend + 1 }
    let (candidates, kept) ← job.candidates stage type vertexIds base
    return (⟨base, candidates, 0⟩, kept)
  take? := Pending.take?

/-- Binds every relation to an edge. -/
def resolution (job : Job σ) : Relay σ where
  Buffer := EdgeChoices
  Memory := Unit
  blank := ()
  fill _ base := do
    count fun counters => { counters with resolve := counters.resolve + 1 }
    let choices ←
      job.plan.lookups.mapM fun lookup =>
        lookup.resolve job.walkable base.vertices
    return (.ofTuple base choices, ())
  take? := EdgeChoices.take?

/-- Keeps the tuples that pass the conditions. -/
def filtering (job : Job σ) : Relay σ where
  Buffer := Option Binding
  Memory := Unit
  blank := ()
  fill _ base := do
    count fun counters => { counters with filter := counters.filter + 1 }
    if job.plan.conditions.all
      (·.holds job.walkable.graph base.vertices base.edges) then
        return (some base, ())
    else
      note fun rows => { rows with rejected := rows.rejected + 1 }
      return (none, ())
  take? := Option.map fun tuple => (tuple, none)

/-- The last stream of a plan. -/
def pipeline
    (job : Job σ)
    (stage : Stage)
    (sourceType targetType : Option TypeId)
    (rest : List (Stage × Option TypeId)) : TupleStream σ :=
  let scanned := job.scanStream stage sourceType targetType
  let extended :=
    rest.foldl
      (fun input (stage, type) => (job.extension stage type).onto input)
    scanned
  let resolved := job.resolution.onto extended
  if job.plan.conditions.isEmpty then resolved else job.filtering.onto resolved

/-- Delivers the row of a tuple. -/
def output (job : Job σ) (tuple : Binding) : Execution σ Unit := do
  let row ← job.plan.outputRow tuple
  send job.deliver ⟨job.plan.rowKind, row⟩
  count fun counters => { counters with sink := counters.sink + 1 }
  note fun rows => { rows with delivered := rows.delivered + 1 }

/-- Executes the plan by pulling. -/
def pull (job : Job σ) : Execution σ Unit :=
  match job.plan.shapeViolation? with
  | some violation => throw (.violated violation)
  | none =>
      match job.plan.stages, job.plan.types with
      | stage :: rest, sourceType :: targetType :: types =>
          let stream :=
            job.pipeline stage sourceType targetType (rest.zip types)
          stream.drain job.output stream.start
      | _, _ => pure ()

end Job

/-- Executes a plan by pulling and collects its events. -/
def Plan.pullEvents (plan : Plan) (graph : Graph) (counters : Counters) :
    Except Error RowCounts × List Event × Counters :=
  let (outcome, progress) :=
    (Job.mk plan graph.indexed collectEvent).pull { receiver := [], counters }
  (outcome.map fun _ => progress.rows, progress.receiver.reverse,
    progress.counters)

end DeltaGraph
