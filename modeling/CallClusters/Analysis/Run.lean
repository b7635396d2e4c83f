import CallClusters.Analysis.Config
import CallClusters.Analysis.Document
import CallClusters.Cluster.Crossing
import CallClusters.Page.Network
import CallClusters.Report.Lines

/-! A whole analysis: load the graph, cluster it, save what was found, draw it, and report on it.
The graph and its clusters are saved before the statistics, so that a statistic without a value
does not lose them. -/

namespace CallClusters

/-- What an analysis found. -/
structure Findings where
  graph : Graph Float
  clustering : Clustering Float
  report : Report Float

/-- Components are computed; everything else is read from the partition file. -/
def Config.loadPartitioner (c : Config) (files : FileTree) : Except Failure Partitioner :=
  if !c.algorithm.isExternal then .ok .connectedComponents
  else match c.partition with
    | none => .error (.ofMessage ("the " ++ c.algorithm.title
        ++ " algorithm needs a partition file produced by an external tool"))
    | some path =>
      if c.algorithm = .girvanNewman then (files.loadLevels path).map .girvanNewman
      else (files.loadPartition path).map (.precomputed c.algorithm)

namespace Job

/-- Draws the graph once without its clusters and once with them. -/
def savePages (directory : String) (g : Graph Float) (c : Clustering Float) (blackSingles : Bool) :
    Job Unit := do
  remark ("Generating visualizations for " ++ toString c.clusters.length ++ " clusters")
  makeDirectories directory ⟨[], .system⟩
  write (Path.join directory "graph_without_clusters.html") g.network.page ⟨[], .system⟩
  write (Path.join directory "graph_with_clusters.html") (c.network blackSingles).page ⟨[], .system⟩
  remark "Visualizations generated successfully"

/-- The graph of an analysis, which must have a node. -/
def loadInput (path : String) : Job (Graph Float) := do
  emit (.stageStarted .load)
  let (events, graph) ← inspect fun files => .ok (files.loadGraph path)
  emitAll events
  emit (.stageFinished .load)
  if graph.isEmpty then
    fail (.ofMessage ("graph at " ++ path ++ " is empty or could not be loaded"))
  else return graph

end Job

def Config.run (c : Config) (partitioner : Partitioner) : Job Findings := do
  let layout := c.layout
  Job.makeDirectories layout.clustersDirectory ⟨["Failed to create " ++ layout.clustersDirectory], .system⟩
  let graph ← Job.loadInput layout.graphInput
  Job.remark ("Loaded " ++ graph.text)
  let clustering ← Job.ofTraced (graph.identifyClusters partitioner)
  Job.remark clustering.text
  Job.saveGraph layout.graphReport graph
  Job.saveClustering layout.clustersReport clustering
  if !c.skipPages then Job.savePages layout.plotDirectory graph clustering c.blackSingles
  let report ← Job.ofTraced (Report.compute graph clustering c.thresholds)
  Job.emitAll report.events
  Job.saveSummary layout.summary report
  return { graph, clustering, report }

end CallClusters
