import CallClusters.Json.Printer
import CallClusters.Json.Row
import CallClusters.Report.Stats

/-! Reports as JSON data. No field has a default: an array must give all of a record's fields, and
only a field that may be null can be left out of an object. -/

namespace CallClusters

namespace GraphStats

def toJson (g : GraphStats Float) : Json := .record [
  ("node_count", .nat g.nodeCount),
  ("edge_count", .nat g.edgeCount),
  ("unique_edge_count", .nat g.distinctEdgeCount),
  ("isolated_node_count", .nat g.isolatedCount),
  ("average_edges_per_node", .float g.averageDegree),
  ("median_incoming_edges_per_node", .float g.medianInDegree),
  ("median_outgoing_edges_per_node", .float g.medianOutDegree)]

def ofJson? (j : Json) : Option (GraphStats Float) := do
  let row ← j.row? ["node_count", "edge_count", "unique_edge_count", "isolated_node_count",
    "average_edges_per_node", "median_incoming_edges_per_node", "median_outgoing_edges_per_node"] 7
  return {
    nodeCount := ← row.required? "node_count" Json.count?
    edgeCount := ← row.required? "edge_count" Json.count?
    distinctEdgeCount := ← row.required? "unique_edge_count" Json.count?
    isolatedCount := ← row.required? "isolated_node_count" Json.count?
    averageDegree := ← row.required? "average_edges_per_node" Json.float?
    medianInDegree := ← row.required? "median_incoming_edges_per_node" Json.float?
    medianOutDegree := ← row.required? "median_outgoing_edges_per_node" Json.float? }

end GraphStats

namespace SizeSummary

def toJson (s : SizeSummary Float) : Json := .record [
  ("threshold", s.threshold.elim .null Json.nat),
  ("cluster_count", .nat s.clusterCount),
  ("average_size", .float s.averageSize),
  ("median_size", .float s.medianSize)]

def ofJson? (j : Json) : Option (SizeSummary Float) := do
  let row ← j.row? ["threshold", "cluster_count", "average_size", "median_size"] 4
  return {
    threshold := ← row.optional? "threshold" Json.count?
    clusterCount := ← row.required? "cluster_count" Json.count?
    averageSize := ← row.required? "average_size" Json.float?
    medianSize := ← row.required? "median_size" Json.float? }

end SizeSummary

namespace ClusterLine

def toJson (l : ClusterLine) : Json := .record [
  ("id", .nat l.id.toNat),
  ("node_count", .nat l.nodeCount),
  ("intra_cluster_edge_count", .nat l.intraCount)]

def ofJson? (j : Json) : Option ClusterLine := do
  let row ← j.row? ["id", "node_count", "intra_cluster_edge_count"] 3
  return {
    id := ← row.required? "id" Json.word32?
    nodeCount := ← row.required? "node_count" Json.count?
    intraCount := ← row.required? "intra_cluster_edge_count" Json.count? }

end ClusterLine

namespace ClusterStats

def toJson (c : ClusterStats Float) : Json := .record [
  ("cluster_count", .nat c.clusterCount),
  ("intra_cluster_edge_count", .nat c.intraCount),
  ("inter_cluster_edge_count", .nat c.interCount),
  ("total_edge_count", .nat c.totalCount),
  ("consistent", .bool c.consistent),
  ("all_clusters", c.allClusters.toJson),
  ("above_thresholds", .array (c.aboveThresholds.map SizeSummary.toJson)),
  ("clusters", .array (c.clusters.map ClusterLine.toJson)),
  ("inter_cluster_percentage", c.interPercentage.elim .null Json.float)]

def ofJson? (j : Json) : Option (ClusterStats Float) := do
  let row ← j.row? ["cluster_count", "intra_cluster_edge_count", "inter_cluster_edge_count",
    "total_edge_count", "consistent", "all_clusters", "above_thresholds", "clusters",
    "inter_cluster_percentage"] 9
  return {
    clusterCount := ← row.required? "cluster_count" Json.count?
    intraCount := ← row.required? "intra_cluster_edge_count" Json.count?
    interCount := ← row.required? "inter_cluster_edge_count" Json.count?
    totalCount := ← row.required? "total_edge_count" Json.count?
    consistent := ← row.required? "consistent" Json.bool?
    allClusters := ← row.required? "all_clusters" SizeSummary.ofJson?
    aboveThresholds := ← row.required? "above_thresholds" (Json.list? SizeSummary.ofJson?)
    clusters := ← row.required? "clusters" (Json.list? ClusterLine.ofJson?)
    interPercentage := ← row.optional? "inter_cluster_percentage" Json.float? }

end ClusterStats

namespace Report

def toJson (r : Report Float) : Json := .record [
  ("graph", r.graph.toJson),
  ("clusters", r.clusters.toJson)]

def ofJson? (j : Json) : Option (Report Float) := do
  let row ← j.row? ["graph", "clusters"] 2
  return {
    graph := ← row.required? "graph" GraphStats.ofJson?
    clusters := ← row.required? "clusters" ClusterStats.ofJson? }

end Report

end CallClusters
