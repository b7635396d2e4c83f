import CallClusters.Cluster.Build
import CallClusters.Partition.Partitioner

/-! The edges that cross from one cluster to another, and the whole way from a graph to its
clusters. -/

namespace CallClusters

variable {W : Type}

namespace Clustering

/-- The ends' clusters differ in their ids, or some end is in no cluster. -/
def crosses (c : Clustering W) (e : Edge W) : Bool :=
  match c.clusterOf e.source, c.clusterOf e.target with
  | some a, some b => a.id != b.id
  | _, _ => true

def crossingEdges (c : Clustering W) (g : Graph W) : List (Edge W) := g.edges.filter c.crosses

/-- The report on a name that no cluster lists. -/
def missingEvents (c : Clustering W) (name : String) : List (Event W) :=
  match c.clusterOf name with
  | some _ => []
  | none => [.clusterNotFound name]

/-- What is reported while all edges are looked at, for each the source first. -/
def crossingEvents (c : Clustering W) (g : Graph W) : List (Event W) :=
  g.edges.flatMap fun e => c.missingEvents e.source ++ c.missingEvents e.target

end Clustering

/-- Partitions the graph, builds the clusters and finds the edges between them. -/
def Graph.identifyClusters [Number W] (g : Graph W) (partitioner : Partitioner) :
    Traced W (Clustering W) := do
  Traced.emit (.stageStarted .partition)
  Traced.emitAll g.adjacencyEvents
  let adjacency := g.adjacency
  let partition ← partitioner.partition adjacency
  Traced.emit (.modularity partitioner.algorithm.title (adjacency.modularity partition))
  Traced.emit (.stageFinished .partition)
  let clustering ← Clustering.ofPartition g partition
  Traced.emit (.stageStarted .classify)
  Traced.emitAll (clustering.crossingEvents g)
  Traced.emit (.stageFinished .classify)
  return { clustering with interEdges := clustering.crossingEdges g }

end CallClusters
