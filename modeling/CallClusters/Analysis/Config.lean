import CallClusters.Files.Path
import CallClusters.Partition.Algorithm

/-! What an analysis is asked to do, and where its files lie. -/

namespace CallClusters

structure Config where
  /-- The directory that holds `graph/graph.json` and takes the results. -/
  dataPath : String
  algorithm : Algorithm
  /-- The file with the partition, or the levels, that another program found. -/
  partition : Option String
  thresholds : List Nat
  blackSingles : Bool
  skipPages : Bool
  deriving DecidableEq

namespace Config

def defaultThresholds : List Nat := [2, 5]

end Config

structure Layout where
  graphInput : String
  clustersDirectory : String
  clustersReport : String
  graphReport : String
  summary : String
  logFile : String
  plotDirectory : String
  deriving DecidableEq

/-- The results of each algorithm have a directory of their own. -/
def Config.layout (c : Config) : Layout :=
  let clusters := Path.join (Path.join c.dataPath "clusters") c.algorithm.key
  { graphInput := Path.join (Path.join c.dataPath "graph") "graph.json"
    clustersDirectory := clusters
    clustersReport := Path.join clusters "clusters.json"
    graphReport := Path.join clusters "graph.json"
    summary := Path.join clusters "summary.json"
    logFile := Path.join clusters "analysis.log"
    plotDirectory := Path.join clusters "plot" }

end CallClusters
