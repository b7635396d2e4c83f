import CallClusters.Cluster.Basic
import CallClusters.Partition.Modularity
import CallClusters.Traced

/-! From communities of names to clusters of a graph's nodes. -/

namespace CallClusters

variable {W : Type}

/-- The edges of the graph with both ends among the names. -/
def Graph.edgesWithin (g : Graph W) (names : List String) : List (Edge W) :=
  g.edges.filter fun e => names.contains e.source && names.contains e.target

namespace Clustering

/-- The cluster of one community, in which repeated names count once. -/
def clusterOfCommunity (g : Graph W) (index : Nat) (community : List String) : Cluster W :=
  let nodes := community.eraseDups
  { id := UInt32.ofNat (index + 1), nodes, intraEdges := g.edgesWithin nodes }

/-- The first name that is no node of the graph, with the position of its community counted from
`index`. -/
def firstUnknown (g : Graph W) (index : Nat) : Partition → Option (Nat × String)
  | [] => none
  | community :: rest =>
    match community.find? fun name => !g.contains name with
    | some name => some (index, name)
    | none => firstUnknown g (index + 1) rest

/-- One cluster for every community, with ids from one up. Every name has to be a node. -/
def ofPartition (g : Graph W) (p : Partition) : Traced W (Clustering W) := do
  Traced.emit (.stageStarted .adapt)
  match firstUnknown g 0 p with
  | some (index, name) =>
    Traced.emit (.nodeNotFound name)
    Traced.fail (.unknownMember (UInt32.ofNat (index + 1)) name)
  | none =>
    Traced.emit (.stageFinished .adapt)
    return { clusters := p.mapIdx (clusterOfCommunity g), interEdges := [] }

end Clustering

end CallClusters
