import CallClusters.Message
import CallClusters.Report.Stats

/-! A report as lines for a reader. -/

namespace CallClusters

namespace GraphStats

def lines (g : GraphStats Float) : List String := [
  "Number of nodes in the graph: " ++ toString g.nodeCount,
  "Number of edges (with duplicates): " ++ toString g.edgeCount,
  "Number of unique edges: " ++ toString g.distinctEdgeCount,
  "Number of isolated nodes: " ++ toString g.isolatedCount,
  "Average edges per node: " ++ messageText g.averageDegree,
  "Median number of incoming edges per node: " ++ messageText g.medianInDegree,
  "Median number of outgoing edges per node: " ++ messageText g.medianOutDegree]

end GraphStats

namespace ClusterStats

/-- A line for every summary that has a threshold. -/
def thresholdLines (c : ClusterStats Float) (line : Nat → SizeSummary Float → String) :
    List String :=
  c.aboveThresholds.filterMap fun s => s.threshold.map fun t => line t s

def lines (c : ClusterStats Float) : List String :=
  [ "Number of clusters: " ++ toString c.clusterCount,
    "Number of intra-cluster edges: " ++ toString c.intraCount,
    "Number of inter-cluster edges: " ++ toString c.interCount,
    "Total number of edges (intra + inter-cluster): " ++ toString c.totalCount ]
  ++ c.thresholdLines (fun t s =>
    "Clusters with more than " ++ toString t ++ " nodes: " ++ toString s.clusterCount)
  ++ ["Average number of nodes in all clusters: " ++ messageText c.allClusters.averageSize]
  ++ c.thresholdLines (fun t s =>
    "Average number of nodes in clusters with more than " ++ toString t ++ " nodes: "
      ++ messageText s.averageSize)
  ++ ["Median number of nodes in all clusters: " ++ messageText c.allClusters.medianSize]
  ++ c.thresholdLines (fun t s =>
    "Median number of nodes in clusters with more than " ++ toString t ++ " nodes: "
      ++ messageText s.medianSize)
  ++ c.clusters.map (fun k => clusterText k.id k.nodeCount k.intraCount)
  ++ (c.interPercentage.map fun p =>
    "Percentage of inter-cluster edges: " ++ twoPlaces p ++ "%").toList

end ClusterStats

namespace Report

def lines (r : Report Float) : List String := r.graph.lines ++ r.clusters.lines

/-- The lines as events. -/
def events (r : Report Float) : List (Event Float) := r.lines.map .reportLine

end Report

end CallClusters
