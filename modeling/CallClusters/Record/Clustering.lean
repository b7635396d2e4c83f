import CallClusters.Cluster.Basic
import CallClusters.Partition.Algorithm
import CallClusters.Partition.Modularity
import CallClusters.Record.Graph

/-! Clusterings, partitions and algorithm names as JSON data. -/

namespace CallClusters

/-! ### Clusterings -/

structure ClusterRecord where
  id : UInt32
  nodes : List String
  intraEdges : List EdgeRecord
  deriving DecidableEq

namespace ClusterRecord

variable {W : Type}

def toJson (k : ClusterRecord) : Json := .record [
  ("id", .nat k.id.toNat),
  ("nodes", .array (k.nodes.map nodeToJson)),
  ("intra_cluster_edges", .array (k.intraEdges.map EdgeRecord.toJson))]

/-- The id has no default. -/
def ofJson? (j : Json) : Option ClusterRecord := do
  let row ← j.row? ["id", "nodes", "intra_cluster_edges"] 1
  return {
    id := ← row.required? "id" Json.word32?
    nodes := ← row.defaulted? "nodes" [] (Json.list? nodeOfJson?)
    intraEdges := ← row.defaulted? "intra_cluster_edges" [] (Json.list? EdgeRecord.ofJson?) }

def ofCluster (k : Cluster W) : ClusterRecord := ⟨k.id, k.nodes, k.intraEdges.map EdgeRecord.ofEdge⟩

def toCluster [Number W] (k : ClusterRecord) : Except Fault (Cluster W) := do
  let edges ← k.intraEdges.mapM EdgeRecord.toEdge
  return ⟨k.id, k.nodes, edges⟩

end ClusterRecord

structure ClusteringRecord where
  clusters : List ClusterRecord
  interEdges : List EdgeRecord
  deriving DecidableEq

namespace ClusteringRecord

variable {W : Type}

def toJson (c : ClusteringRecord) : Json := .record [
  ("clusters", .array (c.clusters.map ClusterRecord.toJson)),
  ("inter_cluster_edges", .array (c.interEdges.map EdgeRecord.toJson))]

def ofJson? (j : Json) : Option ClusteringRecord := do
  let row ← j.row? ["clusters", "inter_cluster_edges"] 0
  return {
    clusters := ← row.defaulted? "clusters" [] (Json.list? ClusterRecord.ofJson?)
    interEdges := ← row.defaulted? "inter_cluster_edges" [] (Json.list? EdgeRecord.ofJson?) }

def ofClustering (c : Clustering W) : ClusteringRecord :=
  ⟨c.clusters.map ClusterRecord.ofCluster, c.interEdges.map EdgeRecord.ofEdge⟩

/-- The clusters come first, each with its own edges, then the edges between them. -/
def toClustering [Number W] (c : ClusteringRecord) : Except Fault (Clustering W) := do
  let clusters ← c.clusters.mapM ClusterRecord.toCluster
  let interEdges ← c.interEdges.mapM EdgeRecord.toEdge
  return ⟨clusters, interEdges⟩

end ClusteringRecord

/-! ### Partitions -/

namespace Partition

/-- A list of lists of names. -/
def toJson (p : Partition) : Json := .array (p.map fun names => .array (names.map Json.text))

def ofJson? : Json → Option Partition := Json.list? (Json.list? Json.string?)

/-- The levels of a hierarchy. -/
def levelsToJson (levels : List Partition) : Json := .array (levels.map toJson)

def levelsOfJson? : Json → Option (List Partition) := Json.list? ofJson?

end Partition

/-! ### Algorithms -/

namespace Algorithm

def toJson (a : Algorithm) : Json := .text a.key

/-- The name, or an object with the name as its only key and null behind it. -/
def ofJson? : Json → Option Algorithm
  | .string s => s.bind ofKey?
  | .object [(key, .null)] => key.bind ofKey?
  | _ => none

end Algorithm

end CallClusters
