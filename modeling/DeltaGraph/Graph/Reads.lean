import DeltaGraph.Graph.Incident

/-!
# Reading a graph

Whatever a graph is kept in, it is read by the same questions.
-/

namespace DeltaGraph

/-- The answers to all questions about a graph. -/
structure GraphReads where
  vertexIds : List VertexId
  vertexType? : VertexId → Option TypeId
  vertexProperty? : VertexId → PropertyId → Option Value
  edge? : EdgeId → Option (Link × Edge)
  edgeProperty? : EdgeId → PropertyId → Option Value
  neighbors : VertexId → Direction → Version → Option TypeId → List VertexId
  edgesJoining :
    VertexId → VertexId → Option TypeId → Version → List EdgeId
  resolveEdge :
    VertexId → VertexId → Option TypeId → Version → Except Error EdgeId
  sources : Version → Direction → List VertexId
  countEdges : Version → Nat
  isPending : Bool

/-- What is read of a graph. -/
def Graph.reads (graph : Graph) : GraphReads where
  vertexIds := graph.vertexIds
  vertexType? := graph.vertexType?
  vertexProperty? := graph.vertexProperty?
  edge? := graph.edge?
  edgeProperty? := graph.edgeProperty?
  neighbors := graph.walkable.neighbors
  edgesJoining := graph.walkable.edgesJoining
  resolveEdge := graph.walkable.resolveEdge
  sources := graph.sources
  countEdges := graph.countEdges
  isPending := graph.isPending

end DeltaGraph
