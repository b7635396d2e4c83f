import CallClusters.Cluster.Basic
import CallClusters.Decimal.Format
import CallClusters.Event

/-! The texts in which graphs, clusters and events are shown to an operator. -/

namespace CallClusters

def nodeText (name : String) : String := "Node: " ++ name

/-- The name, the parameter types, the return type and the class. -/
def Method.text (m : Method) : String :=
  m.name ++ "(" ++ String.intercalate ", " (m.parameters.map Parameter.type) ++ "): " ++ m.returnType
    ++ " @ " ++ m.declaringClass

def Edge.text (e : Edge Float) : String :=
  "Edge: " ++ e.source ++ " -> " ++ e.target ++ ", Weight: " ++ messageText e.weight
    ++ ", Method: " ++ e.method.text

def Graph.text {W : Type} (g : Graph W) : String :=
  "Graph with " ++ toString g.nodes.length ++ " nodes and " ++ toString g.edges.length ++ " edges."

/-- The line about a cluster with so many nodes and edges. -/
def clusterText (id : UInt32) (nodeCount intraCount : Nat) : String :=
  "Cluster " ++ toString id.toNat ++ ": " ++ toString nodeCount ++ " nodes, " ++ toString intraCount
    ++ " intra-cluster edges"

def Cluster.text {W : Type} (k : Cluster W) : String := clusterText k.id k.size k.intraEdges.length

def Clustering.text {W : Type} (c : Clustering W) : String :=
  "Clusters Information: " ++ toString c.clusters.length ++ " clusters, " ++ toString c.interCount
    ++ " inter-cluster edges"

def Stage.title : Stage → String
  | .load => "Graph JSON to Graph object"
  | .partition => "Cluster identification"
  | .adapt => "Cluster construction"
  | .classify => "Inter-cluster edges identification"
  | .report => "Analysis report"

def Event.text : Event Float → String
  | .stageStarted stage => "BEGIN: " ++ stage.title
  | .stageFinished stage => "END: " ++ stage.title
  | .nodeNotFound name => "Node with name " ++ name ++ " was not found"
  | .clusterNotFound node => "Cluster of node " ++ node ++ " not found"
  | .edgeSkipped source target reason =>
    "Skipping edge " ++ source ++ " -> " ++ target ++ ": " ++ reason
  | .inputRejected path reason => "Could not load graph from " ++ path ++ ": " ++ reason
  | .modularity algorithm value =>
    "Modularity of the " ++ algorithm ++ " clusters is: " ++ messageText value
  | .baseModularity value => "Base modularity: " ++ messageText value
  | .levelModularity level value =>
    "Modularity score at level " ++ toString level ++ " is " ++ messageText value
  | .levelSelected level =>
    "Optimal level of depth in the Girvan-Newman hierarchy was level " ++ toString level
  | .noImprovingLevel => "No optimal level found; using the last level"
  | .edgeCountMismatch classified total =>
    "Intra + inter-cluster edges (" ++ toString classified
      ++ ") differ from the graph's edge count (" ++ toString total ++ ")"
  | .reportLine line => line

end CallClusters
