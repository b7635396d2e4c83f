import CallClusters.Analysis.Job
import CallClusters.Record.Clustering
import CallClusters.Record.Report

/-! Loading JSON documents from files and saving them. -/

namespace CallClusters

/-! ### Loading -/

/-- The data in the JSON text of a file. -/
def FileTree.load {α : Type} (files : FileTree) (path : String) (read : Json → Option α) :
    Except Failure α :=
  match files.get? path with
  | none => .error (.ofMessage ("File does not exist: " ++ path))
  | some (.file (.text text)) =>
    match (Json.parse? text).bind read with
    | some a => .ok a
    | none => .error ⟨["Error decoding JSON from " ++ path], .json⟩
  | some _ => .error ⟨["Failed to read " ++ path], .system⟩

/-- A graph that cannot be loaded is reported, and the empty graph takes its place. -/
def FileTree.loadGraph {W : Type} [Number W] (files : FileTree) (path : String) :
    List (Event W) × Graph W :=
  match files.load path GraphRecord.ofJson? with
  | .error failure => ([.inputRejected path failure.text], .empty)
  | .ok record =>
    let built := record.toGraph
    match built.result with
    | .ok graph => (built.events, graph)
    | .error fault => (built.events ++ [.inputRejected path fault.message], .empty)

def FileTree.loadPartition (files : FileTree) (path : String) : Except Failure Partition :=
  (files.load path Partition.ofJson?).mapError (·.within "Failed to load partition")

def FileTree.loadLevels (files : FileTree) (path : String) : Except Failure (List Partition) :=
  (files.load path Partition.levelsOfJson?).mapError (·.within "Failed to load partition levels")

def FileTree.loadClustering {W : Type} [Number W] (files : FileTree) (path : String) :
    Except Failure (Clustering W) := do
  let record ← files.load path ClusteringRecord.ofJson?
  record.toClustering.mapError fun fault =>
    (Failure.ofFault fault).within ("Invalid clusters report " ++ path)

/-! ### Saving -/

namespace Job

/-- Writes a value as text spread over lines. The directories above the file are made. -/
def save (path : String) (value : Json) : Job Unit := do
  makeParents path ⟨[], .system⟩
  write path value.pretty ⟨["Failed to create " ++ path], .system⟩

def saveGraph (path : String) (g : Graph Float) : Job Unit := do
  save path (GraphRecord.ofGraph g).toJson
  remark ("Detailed graph report saved to " ++ path)

def saveClustering (path : String) (c : Clustering Float) : Job Unit := do
  save path (ClusteringRecord.ofClustering c).toJson
  remark ("Detailed clusters report saved to " ++ path)

def saveSummary (path : String) (r : Report Float) : Job Unit := do
  save path r.toJson
  remark ("Summary saved to " ++ path)

end Job

end CallClusters
