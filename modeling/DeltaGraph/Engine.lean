import DeltaGraph.Engine.Change
import DeltaGraph.Plan.Explain
import DeltaGraph.Plan.Standing

/-!
# The engine

An engine answers queries over a graph and keeps standing queries up to date.
Changes come in batches.  A batch resolves the names of all its changes, stages
the changes, runs the delta plans of every standing query on the staged graph,
and is then committed.  If anything fails on the way the batch is rolled back;
rows delivered before the failure stay delivered.  Engines can share their
services, while each has its own standing queries and callbacks.
-/

namespace DeltaGraph

/-- The number of a standing query. -/
abbrev Handle := Nat

/-- A standing query and where its rows go. -/
structure StandingQuery where
  handle : Handle
  plan : StandingPlan
  sink : SinkId

/-- An engine's settings, standing queries and callbacks. -/
structure Engine where
  config : Config
  queries : List StandingQuery := []
  callbacks : Std.ExtTreeMap String SinkId := ∅
  freshHandle : Handle := 1

/-- What a batch did. -/
structure BatchReport where
  /-- The rows that entered the results of standing queries. -/
  emerged : Nat := 0
  /-- The rows that left the results of standing queries. -/
  deleted : Nat := 0
  /-- The removals that found no edge. -/
  missing : Nat := 0
  commit : CommitSummary := {}
  deriving DecidableEq

/-- What a query led to. -/
inductive QueryOutcome
  | rows (rows : List Row)
  | subscribed (handle : Handle)
  | applied (report : BatchReport)

namespace Engine

/-- A new engine. -/
def new (config : Config) : Engine := { config }

/-- The rows of a pattern over the committed graph. -/
def rows (pattern : Pattern) : ServiceM (List Row) := do
  let plan ← ServiceM.onCatalog (Plan.ofPattern pattern)
  return (← ServiceM.collect plan).map Event.row

/-- Adds a standing query that delivers to a sink, of which it gets a share. -/
def subscribeSink (engine : Engine) (pattern : Pattern) (sink : SinkId) :
    ServiceM (Handle × Engine) := do
  let plan ← ServiceM.onCatalog (StandingPlan.ofPattern pattern)
  ServiceM.share sink
  let handle := engine.freshHandle
  return (handle,
    { engine with
      queries := engine.queries ++ [⟨handle, plan, sink⟩]
      freshHandle := handle + 1 })

/-- A share of the sink of a destination; a file is opened. -/
def sinkOf (engine : Engine) : Destination → ServiceM SinkId
  | .file name =>
      ServiceM.onOutlets (Outlets.openFile name engine.config.format)
  | .callback name =>
      match engine.callbacks[name]? with
      | some sink => do
          ServiceM.share sink
          return sink
      | none => throw (.invalid (.unknownCallback name))

/-- Adds a standing query that delivers to a destination.  A file that was
opened is closed again if the query cannot be planned. -/
def subscribe (engine : Engine) (pattern : Pattern)
    (destination : Destination) : ServiceM (Handle × Engine) := do
  let sink ← engine.sinkOf destination
  let subscribed ← tryCatch (engine.subscribeSink pattern sink) fun error => do
    ServiceM.release [sink]
    throw error
  ServiceM.release [sink]
  return subscribed

/-- Puts a sink under the name of a callback, in place of the one that was
there. -/
def setCallback (engine : Engine) (name : String) (sink : SinkId) :
    ServiceM (Unit × Engine) := do
  ServiceM.share sink
  ServiceM.release engine.callbacks[name]?.toList
  return ((), { engine with callbacks := engine.callbacks.insert name sink })

/-- Removes a standing query, with its share of its sink; tells whether there
was one. -/
def unsubscribe (engine : Engine) (handle : Handle) :
    ServiceM (Bool × Engine) := do
  let (removed, kept) := engine.queries.partition (·.handle = handle)
  ServiceM.release (removed.map StandingQuery.sink)
  return (!removed.isEmpty, { engine with queries := kept })

/-- The description of the plan of a query. -/
def explain : Query → ServiceM Description
  | .once pattern => do
      return (← ServiceM.onCatalog (Plan.ofPattern pattern)).describe
  | .standing pattern _ => do
      return (← ServiceM.onCatalog (StandingPlan.ofPattern pattern)).describe
  | other => throw (.invalid (.unplannedOperation other.operation))

/-- Runs a delta plan, and gives the numbers of rows that entered and left the
result. -/
def runDelta (walkable : WalkableGraph) (sink : SinkId) (delta : DeltaPlan) :
    ServiceM (Nat × Nat) := do
  let rows ← ServiceM.execute delta.plan walkable (Outlets.append sink)
  return match delta.plan.rowKind with
    | .emerged => (rows.delivered, 0)
    | .deleted => (0, rows.delivered)
    | .matched => (0, 0)

/-- The sums of pairs of numbers. -/
def totals (counts : List (Nat × Nat)) : Nat × Nat :=
  counts.foldl
    (fun (emerged, deleted) (more, fewer) => (emerged + more, deleted + fewer))
    (0, 0)

/-- Runs the delta plans of a standing query, and flushes its sink if the
settings ask for it. -/
def runQuery
    (engine : Engine)
    (walkable : WalkableGraph)
    (query : StandingQuery) :
    ServiceM (Nat × Nat) := do
  let counts ← query.plan.deltas.mapM (runDelta walkable query.sink)
  if engine.config.flushEachBatch then
    ServiceM.onOutlets (Outlets.flush query.sink)
  return totals counts

/-- Stages resolved changes and runs the standing queries. -/
def runBatch
    (engine : Engine)
    (changes : List ResolvedChange) : ServiceM BatchReport := do
  let missing ← changes.mapM ResolvedChange.stage
  let walkable ← ServiceM.walkable
  let (emerged, deleted) :=
    totals (← engine.queries.mapM (engine.runQuery walkable))
  return { emerged, deleted, missing := missing.count true }

/-- Applies changes as one batch. -/
def apply (engine : Engine) (changes : List Change) : ServiceM BatchReport := do
  let resolved ← ServiceM.onCatalog (changes.mapM Change.resolve)
  let report ← tryCatch (engine.runBatch resolved) fun error => do
    discard (ServiceM.onGraph fun graph => .ok graph.rollback)
    throw error
  let commit ← ServiceM.onGraph fun graph => .ok graph.commit
  return { report with commit }

/-- Adds edges as one batch. -/
def addEdges (engine : Engine) (edges : List NewEdge) : ServiceM BatchReport :=
  engine.apply (edges.map .add)

/-- Removes edges as one batch. -/
def removeEdges
    (engine : Engine)
    (references : List EdgeReference) : ServiceM BatchReport :=
  engine.apply (references.map .remove)

/-- Does what a query asks for. -/
def run (engine : Engine) : Query → ServiceM (QueryOutcome × Engine)
  | .once pattern => return (.rows (← rows pattern), engine)
  | .standing pattern destination => do
      let (handle, engine) ← engine.subscribe pattern destination
      return (.subscribed handle, engine)
  | .create edges => return (.applied (← engine.addEdges edges), engine)
  | .delete references =>
      return (.applied (← engine.removeEdges references), engine)

end Engine

end DeltaGraph
