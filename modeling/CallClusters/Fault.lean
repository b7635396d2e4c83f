/-! Why an analysis stops. Each cause has one wording, `Fault.message`. -/

namespace CallClusters

/-- An end of an edge. -/
inductive Role where
  | source | target
  deriving DecidableEq

def Role.word : Role → String
  | .source => "source"
  | .target => "destination"

/-- What could not be computed, as it is named in a message. -/
abbrev Metric := String

inductive Fault where
  | missingEndpoint (role : Role) (name : String)
  | missingMethod (source target : String) (field : String)
  | unknownMember (cluster : UInt32) (name : String)
  | emptyGraph (metric : Metric)
  | noClusters (metric : Metric)
  | noQualifyingClusters (threshold : Nat) (metric : Metric)
  | noLevels
  | files (reason : String)
  | json (reason : String)
  deriving DecidableEq

def Fault.message : Fault → String
  | .missingEndpoint role name =>
    "graph does not have the " ++ role.word ++ " node `" ++ name ++ "` in its nodes"
  | .missingMethod source target field =>
    "edge " ++ source ++ " -> " ++ target ++ " has no " ++ field
  | .unknownMember cluster name =>
    "cluster " ++ toString cluster.toNat ++ " references node `" ++ name ++ "` which is not in the graph"
  | .emptyGraph metric => "graph has no nodes, cannot compute " ++ metric
  | .noClusters metric => "there are no clusters, cannot compute " ++ metric
  | .noQualifyingClusters threshold metric =>
    "no cluster has more than " ++ toString threshold ++ " nodes, cannot compute " ++ metric
  | .noLevels => "partition level sequence is empty"
  | .files reason => "IO error: " ++ reason
  | .json reason => "JSON error: " ++ reason

end CallClusters
