import CallClusters.Graph.Basic
import CallClusters.Number

/-! Clusters of a call graph, and the edges that run between them. -/

namespace CallClusters

structure Cluster (W : Type) where
  id : UInt32
  nodes : List String
  intraEdges : List (Edge W)
  deriving DecidableEq

namespace Cluster

variable {W : Type}

def size (c : Cluster W) : Nat := c.nodes.length

def contains (c : Cluster W) (name : String) : Bool := c.nodes.contains name

end Cluster

/-- Edges are alike one by one. -/
def Edge.allAlike {W : Type} : List (Edge W) → List (Edge W) → Bool
  | [], [] => true
  | a :: as, b :: bs => a.alike b && allAlike as bs
  | _, _ => false

def Cluster.alike {W : Type} (a b : Cluster W) : Bool :=
  a.id == b.id && a.nodes == b.nodes && Edge.allAlike a.intraEdges b.intraEdges

/-- All clusters of a graph and the edges between them, in graph order. -/
structure Clustering (W : Type) where
  clusters : List (Cluster W)
  interEdges : List (Edge W)
  deriving DecidableEq

namespace Clustering

variable {W : Type}

def empty : Clustering W := ⟨[], []⟩

def intraCount (c : Clustering W) : Nat := total (c.clusters.map fun k => k.intraEdges.length)

def interCount (c : Clustering W) : Nat := c.interEdges.length

/-- The first cluster that lists the node. -/
def clusterOf (c : Clustering W) (name : String) : Option (Cluster W) :=
  c.clusters.find? fun k => k.contains name

def allAlike : List (Cluster W) → List (Cluster W) → Bool
  | [], [] => true
  | a :: as, b :: bs => a.alike b && allAlike as bs
  | _, _ => false

def alike (a b : Clustering W) : Bool :=
  allAlike a.clusters b.clusters && Edge.allAlike a.interEdges b.interEdges

end Clustering

end CallClusters
