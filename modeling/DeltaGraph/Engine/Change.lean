import DeltaGraph.Query
import DeltaGraph.Services

/-!
# Changes of a batch

A change names types and property keys.  Resolving it turns the names into
numbers, and staging it puts it into the pending batch of the graph.  The names
of an edge to add are interned; the type of an edge to remove has to be known.
-/

namespace DeltaGraph

/-- An edge to add, with all names resolved. -/
structure ResolvedEdge where
  link : Link
  sourceType : Option TypeId
  sourceValues : List (PropertyId × Value)
  targetType : Option TypeId
  targetValues : List (PropertyId × Value)
  edgeValues : List (PropertyId × Value)

/-- A change with all names resolved. -/
inductive ResolvedChange
  | add (edge : ResolvedEdge)
  | remove (link : Link)

/-- Named values with the keys interned, in order of the keys. -/
def NamedValues.resolve (values : NamedValues) :
    StateM Catalog (List (PropertyId × Value)) :=
  values.toList.mapM fun (key, value) =>
    return (← Catalog.internProperty key, value)

/-- An edge to add with its names interned: first those of the source, then
those of the target, then those of the edge. -/
def NewEdge.resolve (edge : NewEdge) : StateM Catalog ResolvedEdge := do
  let sourceType ← Catalog.internType? edge.sourceType
  let sourceValues ← edge.sourceValues.resolve
  let targetType ← Catalog.internType? edge.targetType
  let targetValues ← edge.targetValues.resolve
  let type ← Catalog.internElementType edge.type
  let edgeValues ← edge.edgeValues.resolve
  return {
    link := ⟨edge.source, edge.target, type⟩
    sourceType, sourceValues, targetType, targetValues, edgeValues }

/-- The link of an edge to remove. -/
def EdgeReference.resolve (reference : EdgeReference) :
    ExceptT Error (StateM Catalog) Link := do
  let type ← Catalog.findElementType reference.type
  return ⟨reference.source, reference.target, type⟩

/-- A change with its names resolved. -/
def Change.resolve : Change → ExceptT Error (StateM Catalog) ResolvedChange
  | add edge => return .add (← edge.resolve)
  | remove reference => return .remove (← reference.resolve)

namespace ResolvedEdge

/-- The graph in which the ends of the edge are known, the source first, and
the edge is added to the batch. -/
def stage (edge : ResolvedEdge) : ServiceM Unit := do
  ServiceM.onGraph fun graph =>
    (graph.putVertex edge.link.source edge.sourceType edge.sourceValues).map
      ((), ·)
  ServiceM.onGraph fun graph =>
    (graph.putVertex edge.link.target edge.targetType edge.targetValues).map
      ((), ·)
  discard
    (ServiceM.onGraph fun graph => graph.addEdge edge.link edge.edgeValues)

end ResolvedEdge

/-- Stages a change, and tells whether it was a removal that found no edge. -/
def ResolvedChange.stage : ResolvedChange → ServiceM Bool
  | add edge => do
      edge.stage
      return false
  | remove link =>
      ServiceM.onGraph fun graph =>
        match graph.removeEdge? link with
        | some graph => .ok (false, graph)
        | none => .ok (true, graph)

end DeltaGraph
