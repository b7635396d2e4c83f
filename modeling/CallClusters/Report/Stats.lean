import CallClusters.Cluster.Basic
import CallClusters.Graph.Degree
import CallClusters.Traced

/-! The statistics of a clustered graph. A statistic over an empty sample has no value, and the
first such one stops the report. -/

namespace CallClusters

structure GraphStats (W : Type) where
  nodeCount : Nat
  /-- Repeated edges count again. -/
  edgeCount : Nat
  distinctEdgeCount : Nat
  isolatedCount : Nat
  averageDegree : W
  medianInDegree : W
  medianOutDegree : W
  deriving DecidableEq

/-- The sizes of all clusters, or of those with more than `threshold` nodes. -/
structure SizeSummary (W : Type) where
  threshold : Option Nat
  clusterCount : Nat
  averageSize : W
  medianSize : W
  deriving DecidableEq

structure ClusterLine where
  id : UInt32
  nodeCount : Nat
  intraCount : Nat
  deriving DecidableEq

structure ClusterStats (W : Type) where
  clusterCount : Nat
  intraCount : Nat
  interCount : Nat
  /-- The intra-cluster and the inter-cluster edges together. -/
  totalCount : Nat
  /-- Whether the total is the number of the graph's edges. -/
  consistent : Bool
  allClusters : SizeSummary W
  aboveThresholds : List (SizeSummary W)
  clusters : List ClusterLine
  /-- The share of inter-cluster edges in percent; without edges there is none. -/
  interPercentage : Option W
  deriving DecidableEq

structure Report (W : Type) where
  graph : GraphStats W
  clusters : ClusterStats W
  deriving DecidableEq

variable {W : Type}

def GraphStats.compute [Number W] (g : Graph W) : Except Fault (GraphStats W) := do
  let averageDegree ← g.averageDegree
  let medianInDegree ← g.medianInDegree
  let medianOutDegree ← g.medianOutDegree
  return {
    nodeCount := g.nodes.length
    edgeCount := g.edges.length
    distinctEdgeCount := g.distinctEdgeCount
    isolatedCount := g.isolatedCount
    averageDegree, medianInDegree, medianOutDegree }

namespace Clustering

/-- Whether a size is asked for. -/
def qualifies (threshold : Option Nat) (size : Nat) : Bool :=
  match threshold with
  | none => true
  | some t => decide (t < size)

def sizes (c : Clustering W) (threshold : Option Nat) : List Nat :=
  (c.clusters.map Cluster.size).filter (qualifies threshold)

/-- How many clusters have more than `threshold` nodes. -/
def countLarger (c : Clustering W) (threshold : Nat) : Nat :=
  c.clusters.countP fun k => decide (threshold < k.size)

def emptySample (threshold : Option Nat) (metric : Metric) : Fault :=
  match threshold with
  | some t => .noQualifyingClusters t metric
  | none => .noClusters metric

variable [Number W]

def averageSize (c : Clustering W) (threshold : Option Nat) : Except Fault W :=
  let sizes := c.sizes threshold
  if sizes.isEmpty then .error (emptySample threshold "average cluster size")
  else .ok (Number.ofNat (total sizes) / Number.ofNat sizes.length)

def medianSize (c : Clustering W) (threshold : Option Nat) : Except Fault W :=
  match median (c.sizes threshold) with
  | some m => .ok m
  | none => .error (emptySample threshold "median cluster size")

def sizeSummary (c : Clustering W) (threshold : Option Nat) : Except Fault (SizeSummary W) := do
  let averageSize ← c.averageSize threshold
  let medianSize ← c.medianSize threshold
  return {
    threshold
    clusterCount := match threshold with
      | some t => c.countLarger t
      | none => c.clusters.length
    averageSize, medianSize }

end Clustering

def Cluster.line (k : Cluster W) : ClusterLine := ⟨k.id, k.size, k.intraEdges.length⟩

variable [Number W]

/-- A total other than the number of edges is reported before anything can fail. -/
def ClusterStats.compute (g : Graph W) (c : Clustering W) (thresholds : List Nat) :
    Traced W (ClusterStats W) := do
  let classified := c.intraCount + c.interCount
  let consistent := classified == g.edges.length
  if !consistent then Traced.emit (.edgeCountMismatch classified g.edges.length)
  let allClusters ← Traced.ofExcept (c.sizeSummary none)
  let aboveThresholds ← Traced.ofExcept (thresholds.mapM fun t => c.sizeSummary (some t))
  return {
    clusterCount := c.clusters.length
    intraCount := c.intraCount
    interCount := c.interCount
    totalCount := classified
    consistent, allClusters, aboveThresholds
    clusters := c.clusters.map Cluster.line
    interPercentage :=
      if classified > 0 then
        some (Number.ofNat c.interCount / Number.ofNat classified * Number.ofNat 100)
      else none }

def Report.compute (g : Graph W) (c : Clustering W) (thresholds : List Nat) :
    Traced W (Report W) := do
  Traced.emit (.stageStarted .report)
  let graph ← Traced.ofExcept (GraphStats.compute g)
  let clusters ← ClusterStats.compute g c thresholds
  Traced.emit (.stageFinished .report)
  return { graph, clusters }

end CallClusters
