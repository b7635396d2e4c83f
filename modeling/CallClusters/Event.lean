/-! What an analysis tells its operator while it runs. -/

namespace CallClusters

/-- The parts of a run, in the only order in which they come. -/
inductive Stage where
  | load | partition | adapt | classify | report
  deriving DecidableEq

inductive Event (W : Type) where
  | stageStarted (stage : Stage)
  | stageFinished (stage : Stage)
  | nodeNotFound (name : String)
  | clusterNotFound (node : String)
  | edgeSkipped (source target : String) (reason : String)
  /-- A graph file could not be loaded, and an empty graph took its place. -/
  | inputRejected (path : String) (reason : String)
  | modularity (algorithm : String) (value : W)
  /-- The modularity of all nodes as one community. -/
  | baseModularity (value : W)
  | levelModularity (level : Nat) (value : W)
  | levelSelected (level : Nat)
  | noImprovingLevel
  | edgeCountMismatch (classified total : Nat)
  | reportLine (line : String)
  deriving DecidableEq

/-- Whether the event tells of a loss of precision. -/
def Event.isWarning {W : Type} : Event W → Bool
  | .nodeNotFound _ | .clusterNotFound _ | .edgeSkipped .. | .noImprovingLevel
  | .edgeCountMismatch .. => true
  | _ => false

end CallClusters
