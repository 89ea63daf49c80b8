import DeltaGraph.Graph.Incident
import DeltaGraph.Plan

/-!
# Executing plans

A plan is executed depth first.  The scan binds the first two variables, each
further stage binds one more, every complete tuple of vertices is resolved to
edges in all ways, and the rows that pass the conditions are delivered one by
one.  The first failure, be it of the plan or of the delivery, ends the
execution; rows delivered before it stay delivered.  The calls of each operator
are counted.
-/

namespace DeltaGraph

/-- How often each operator was called. -/
structure Counters where
  /-- Requests for the next pair of scanned vertices, the last one included. -/
  scan : Nat := 0
  /-- Tuples that entered a further stage. -/
  extend : Nat := 0
  /-- Tuples that were to be resolved to edges. -/
  resolve : Nat := 0
  /-- Rows that were tested. -/
  filter : Nat := 0
  /-- Rows that were delivered. -/
  sink : Nat := 0
  deriving DecidableEq

/-- What an execution did with its rows. -/
structure RowCounts where
  /-- The rows that were delivered. -/
  delivered : Nat := 0
  /-- The rows that failed a condition. -/
  rejected : Nat := 0
  deriving DecidableEq

/-- An execution under way.  The receiver is what rows are delivered to. -/
structure Progress (σ : Type) where
  receiver : σ
  counters : Counters := {}
  rows : RowCounts := {}

/-- A step of an execution, which may fail. -/
abbrev Execution (σ : Type) := ExceptT Error (StateM (Progress σ))

/-- A way of delivering events to a receiver. -/
abbrev Delivery (σ : Type) := Event → ExceptT Error (StateM σ) Unit

namespace Execution

variable {σ : Type}

/-- Updates the counters. -/
def count (update : Counters → Counters) : Execution σ Unit :=
  modify fun progress => { progress with counters := update progress.counters }

/-- Updates the counts of rows. -/
def note (update : RowCounts → RowCounts) : Execution σ Unit :=
  modify fun progress => { progress with rows := update progress.rows }

/-- Delivers an event to the receiver. -/
def send (deliver : Delivery σ) (event : Event) : Execution σ Unit :=
  fun progress =>
    let (outcome, receiver) := deliver event progress.receiver
    (outcome, { progress with receiver })

end Execution

/-- The common members of two ascending lists, in ascending order. -/
def intersectAscending : List VertexId → List VertexId → List VertexId
  | [], _ => []
  | left :: lefts, rights =>
      let rest := rights.dropWhile (· < left)
      if rest.head? = some left then left :: intersectAscending lefts rest
      else intersectAscending lefts rest

/-- Whether a vertex has the type, if one is asked for. -/
def Graph.hasType
    (graph : Graph)
    (type : Option TypeId)
    (vertex : VertexId) : Bool :=
  type.all fun declared => graph.vertexType? vertex == some declared

namespace Rule

/-- The vertices that a rule admits after the bound ones. -/
def neighbors (rule : Rule) (walkable : WalkableGraph) (bound : List VertexId) :
    Except Error (List VertexId) :=
  match bound[rule.slot]? with
  | some vertex =>
      .ok (walkable.neighbors vertex rule.direction rule.version rule.type)
  | none => .error (.violated (.unboundRule rule.slot bound.length))

end Rule

namespace Stage

/-- The members of a list that further rules admit.  The rules are read in
order, and none is read after one that admits nothing. -/
def narrow (walkable : WalkableGraph) (bound admitted : List VertexId) :
    Stage → Except Error (List VertexId)
  | [] => .ok admitted
  | rule :: rest =>
      match rule.neighbors walkable bound with
      | .error error => .error error
      | .ok [] => .ok []
      | .ok neighbors =>
          narrow walkable bound (intersectAscending admitted neighbors) rest

/-- The vertices that all rules of a stage admit, in ascending order. -/
def intersection
    (stage : Stage)
    (walkable : WalkableGraph)
    (bound : List VertexId) :
    Except Error (List VertexId) :=
  match stage with
  | [] => .ok []
  | rule :: rest =>
      match rule.neighbors walkable bound with
      | .error error => .error error
      | .ok [] => .ok []
      | .ok neighbors => narrow walkable bound neighbors rest

/-- The vertices that a further stage admits: without rules, every vertex. -/
def admissible
    (stage : Stage)
    (walkable : WalkableGraph)
    (bound : List VertexId) :
    Except Error (List VertexId) :=
  if stage.isEmpty then .ok walkable.graph.vertexIds
    else stage.intersection walkable bound

end Stage

namespace EdgeLookup

/-- The bound vertex in a slot that a relation ends at. -/
def endpoint (lookup : EdgeLookup) (bound : List VertexId) (slot : Nat) :
    Except Error VertexId :=
  match bound[slot]? with
  | some vertex => .ok vertex
  | none => .error (.violated (.unboundRelation lookup.name slot))

/-- The edges that a relation can be resolved to. -/
def resolve
    (lookup : EdgeLookup)
    (walkable : WalkableGraph)
    (bound : List VertexId) :
    Except Error (List EdgeId) := do
  let source ← lookup.endpoint bound lookup.source
  let target ← lookup.endpoint bound lookup.target
  match walkable.edgesJoining source target lookup.type lookup.version with
  | [] =>
      throw (.violated
        (.unresolvedRelation lookup.name source target lookup.version))
  | edges => return edges

end EdgeLookup

/-- The value of a property of a bound vertex or edge. -/
def Place.value? (place : Place) (graph : Graph) (vertices : List VertexId)
    (edges : List EdgeId) (property : PropertyId) : Option Value :=
  match place with
  | .vertex index => (vertices[index]?).bind (graph.vertexProperty? · property)
  | .edge index => (edges[index]?).bind (graph.edgeProperty? · property)

/-- Whether a condition holds; it does not if a property has no value. -/
def Condition.holds
    (condition : Condition)
    (graph : Graph)
    (vertices : List VertexId)
    (edges : List EdgeId) : Bool :=
  let right :=
    match condition.right with
    | .property place property => place.value? graph vertices edges property
    | .literal value => some value
  match condition.place.value? graph vertices edges condition.property,
    right with
  | some left, some right => condition.comparison.holds left right
  | _, _ => false

namespace Plan

/-- What is wrong with the shape of a plan. -/
def shapeViolation? (plan : Plan) : Option Violation :=
  let count := plan.order.length
  if count < 2 ∨ plan.stages.length ≠ count - 1 ∨ plan.types.length ≠ count then
    some (.misshapenPlan count plan.stages.length plan.types.length)
  else if plan.stages.head?.all List.isEmpty then some .emptyFirstStage
  else if plan.columns.any (count ≤ ·) then some .columnOutOfRange
  else none

/-- The row of a complete tuple. -/
def row (plan : Plan) (vertices : List VertexId) (edges : List EdgeId) : Row :=
  ⟨plan.columns.filterMap (vertices[·]?), edges⟩

end Plan

/-- A plan with the graph that it walks and the delivery of its events. -/
structure Job (σ : Type) where
  plan : Plan
  walkable : WalkableGraph
  deliver : Delivery σ

namespace Job

open Execution

variable {σ : Type}

/-- Delivers a row. -/
def emit
    (job : Job σ)
    (vertices : List VertexId)
    (edges : List EdgeId) : Execution σ Unit := do
  send job.deliver ⟨job.plan.rowKind, job.plan.row vertices edges⟩
  count fun counters => { counters with sink := counters.sink + 1 }
  note fun rows => { rows with delivered := rows.delivered + 1 }

/-- Delivers a row if it passes the conditions. -/
def test (job : Job σ) (vertices : List VertexId) (edges : List EdgeId) :
    Execution σ Unit := do
  if job.plan.conditions.isEmpty then job.emit vertices edges
  else
    count fun counters => { counters with filter := counters.filter + 1 }
    if job.plan.conditions.all (·.holds job.walkable.graph vertices edges) then
      job.emit vertices edges
    else note fun rows => { rows with rejected := rows.rejected + 1 }

/-- Chooses one edge for each remaining relation in all ways; the choice for the
last relation varies fastest. -/
def choose (job : Job σ) (vertices : List VertexId) :
    List (List EdgeId) → List EdgeId → Execution σ Unit
  | [], edges => job.test vertices edges
  | choices :: rest, edges =>
      choices.forM fun edge => choose job vertices rest (edges ++ [edge])

/-- Resolves a complete tuple of vertices to edges in all ways. -/
def resolve (job : Job σ) (vertices : List VertexId) : Execution σ Unit := do
  count fun counters => { counters with resolve := counters.resolve + 1 }
  let choices ←
    job.plan.lookups.mapM fun lookup => lookup.resolve job.walkable vertices
  job.choose vertices choices []

/-- Binds one variable for each remaining stage. -/
def extend (job : Job σ) :
    List (Stage × Option TypeId) → List VertexId → Execution σ Unit
  | [], vertices => job.resolve vertices
  | (stage, type) :: rest, vertices => do
      count fun counters => { counters with extend := counters.extend + 1 }
      let candidates ← stage.admissible job.walkable vertices
      (candidates.filter (job.walkable.graph.hasType type)).forM fun vertex =>
        extend job rest (vertices ++ [vertex])

/-- Counts a request for a scanned pair. -/
def countScan : Execution σ Unit :=
  count fun counters => { counters with scan := counters.scan + 1 }

/-- The vertices that the first stage admits after a source.  A failure ends a
request for a scanned pair. -/
def scanFrom
    (job : Job σ)
    (stage : Stage)
    (type : Option TypeId)
    (source : VertexId) :
    Execution σ (List VertexId) :=
  match stage.intersection job.walkable [source] with
  | .ok candidates => pure (candidates.filter (job.walkable.graph.hasType type))
  | .error error => do
      countScan
      throw error

/-- Binds the first two variables, and then the others. -/
def scan
    (job : Job σ)
    (first : Rule)
    (stage : Stage)
    (sourceType targetType : Option TypeId)
    (rest : List (Stage × Option TypeId)) : Execution σ Unit := do
  let sources := job.walkable.graph.sources first.version first.direction
  (sources.filter (job.walkable.graph.hasType sourceType)).forM fun source => do
    let targets ← job.scanFrom stage targetType source
    targets.forM fun target => do
      countScan
      job.extend rest [source, target]
  countScan

/-- Executes the plan. -/
def run (job : Job σ) : Execution σ Unit :=
  match job.plan.shapeViolation? with
  | some violation => throw (.violated violation)
  | none =>
      match job.plan.stages, job.plan.types with
      | (first :: others) :: rest, sourceType :: targetType :: types =>
          job.scan first (first :: others) sourceType targetType
            (rest.zip types)
      | _, _ => pure ()

/-- Executes the plan from given counters, and gives the outcome, the receiver
and the counters. -/
def execute (job : Job σ) (receiver : σ) (counters : Counters) :
    Except Error RowCounts × σ × Counters :=
  let (outcome, progress) := job.run { receiver, counters }
  (outcome.map fun _ => progress.rows, progress.receiver, progress.counters)

end Job

/-- Delivers events to a list whose first member is the last event. -/
def collectEvent : Delivery (List Event) :=
  fun event events => (.ok (), event :: events)

namespace Plan

/-- Executes a plan and collects its events. -/
def collectEvents (plan : Plan) (graph : Graph) (counters : Counters) :
    Except Error RowCounts × List Event × Counters :=
  let (outcome, events, counters) :=
    (Job.mk plan graph.indexed collectEvent).execute [] counters
  (outcome, events.reverse, counters)

end Plan

end DeltaGraph
