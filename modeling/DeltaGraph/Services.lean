import DeltaGraph.Catalog
import DeltaGraph.Execution
import DeltaGraph.Graph.Batch
import DeltaGraph.Sink

/-!
# Services

Engines share a graph, the catalog of its names, the sinks of their standing
queries and the counters of operator calls.  An operation on the services may
fail; what it did to the services before it failed stays done.
-/

namespace DeltaGraph

/-- What engines share. -/
structure Services where
  graph : Graph := .empty
  catalog : Catalog := .empty
  outlets : Outlets := {}
  counters : Counters := {}

/-- An operation on the services, which may fail. -/
abbrev ServiceM := ExceptT Error (StateM Services)

namespace ServiceM

/-- An operation on the catalog. -/
def onCatalog
    {α : Type}
    (action : ExceptT Error (StateM Catalog) α) : ServiceM α :=
  fun services =>
    let (outcome, catalog) := action services.catalog
    (outcome, { services with catalog })

/-- An operation on the sinks. -/
def onOutlets
    {α : Type}
    (action : ExceptT Error (StateM Outlets) α) : ServiceM α :=
  fun services =>
    let (outcome, outlets) := action services.outlets
    (outcome, { services with outlets })

/-- Takes another share of a sink. -/
def share (sink : SinkId) : ServiceM Unit :=
  onOutlets (Outlets.share sink : StateM Outlets Unit)

/-- Gives back shares of sinks. -/
def release (sinks : List SinkId) : ServiceM Unit :=
  onOutlets (sinks.forM Outlets.release : StateM Outlets Unit)

/-- An operation that gives the changed graph, or fails and changes nothing. -/
def onGraph
    {α : Type}
    (action : Graph → Except Error (α × Graph)) : ServiceM α :=
  fun services =>
    match action services.graph with
    | .ok (value, graph) => (.ok value, { services with graph })
    | .error error => (.error error, services)

/-- The graph, to be walked. -/
def walkable : ServiceM WalkableGraph :=
  return (← get).graph.indexed

/-- An execution of a plan on a graph. -/
def execute
    (plan : Plan)
    (walkable : WalkableGraph)
    (deliver : Delivery Outlets) :
    ServiceM RowCounts :=
  fun services =>
    let job : Job Outlets := ⟨plan, walkable, deliver⟩
    let (outcome, outlets, counters) :=
      job.execute services.outlets services.counters
    (outcome, { services with outlets, counters })

/-- The events of a plan on the graph. -/
def collect (plan : Plan) : ServiceM (List Event) :=
  fun services =>
    let (outcome, events, counters) :=
      plan.collectEvents services.graph services.counters
    (outcome.map fun _ => events, { services with counters })

end ServiceM

end DeltaGraph
