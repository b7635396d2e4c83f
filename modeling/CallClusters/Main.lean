import CallClusters.Command.Execute

/-! The command line. The part of the disk that an analysis looks at is read into a file tree, and
what the analysis changes there is written back. -/

namespace CallClusters

/-- What is on the disk at a path. -/
def entryOnDisk (path : String) : IO (Option Entry) := do
  let place := (← IO.currentDir) / path
  if ← place.isDir then return some .directory
  if ← place.pathExists then return some (.file (.ofBytes (← IO.FS.readBinFile place)))
  return none

def diskPath (place : Place) : String := "/" ++ String.intercalate "/" place.toList

/-- Reads the entries along the steps into the tree, as far as there are any. -/
def readAlong (files : FileTree) (place : Place) : List Path.Step → IO FileTree
  | [] => return files
  | .up :: rest => readAlong files place.pop rest
  | .down name :: rest => do
    let next := place.push name
    match ← entryOnDisk (diskPath next) with
    | some entry => readAlong (files.insert next entry) next rest
    | none => return files

/-- The paths that an analysis reads or writes. -/
def Config.places (c : Config) : List String :=
  let l := c.layout
  [l.graphInput, l.clustersReport, l.graphReport, l.summary, l.logFile,
    Path.join l.plotDirectory "graph_without_clusters.html",
    Path.join l.plotDirectory "graph_with_clusters.html"] ++ c.partition.toList

/-- The working directory and what lies along the paths. -/
def readDisk (paths : List String) : IO FileTree := do
  let here := (← IO.currentDir).components.filter fun name => !name.isEmpty
  paths.foldlM (fun files path => readAlong files (files.base path) (Path.steps path))
    (FileTree.startingAt here)

/-- Writes the entries that differ from those before, the older ones first. -/
def writeDisk (before after : FileTree) : IO Unit :=
  for (place, entry) in after.entries.reverse do
    if before.find? place != some entry then
      match entry with
      | .directory => IO.FS.createDirAll (diskPath place)
      | .file (.text text) => IO.FS.writeFile (diskPath place) text
      | .file (.binary bytes) => IO.FS.writeBinFile (diskPath place) ⟨bytes.toArray⟩

/-- The options in short. -/
def usage : String := String.intercalate "\n" [
  "Usage: [--data-path DIR] [--algorithm NAME] [--partition FILE] [--thresholds N,...]",
  "  [--color-single-node-clusters] [--skip-viz] [--threads N] [--log-file] [-v|--verbose]"]

end CallClusters

open CallClusters

def main (arguments : List String) : IO UInt32 := do
  match Request.ofArguments arguments with
  | .help =>
    IO.println usage
    return 0
  | .invalid =>
    IO.eprintln usage
    return 2
  | .run options =>
    let before ← readDisk options.config.places
    let done := options.execute before
    writeDisk before done.files
    for line in done.log do IO.eprint line.text
    if let some failure := done.failure then IO.eprintln ("Error: " ++ failure.text)
    return UInt32.ofNat done.exitCode
