import CallClusters.Analysis.Run
import CallClusters.Command.Log
import CallClusters.Command.Options

/-! A command from its arguments to its exit code. Notes become lines on the error output, or in a
log file next to the results. -/

namespace CallClusters

/-- What a command leaves behind. -/
structure Completion where
  files : FileTree
  exitCode : Nat
  /-- The lines on the error output. -/
  log : List LogLine
  failure : Option Failure

namespace Options

/-- Makes the log file anew. -/
def openLog (o : Options) : Job Unit := do
  if o.logFile then
    Job.makeDirectories o.config.layout.clustersDirectory ⟨[], .system⟩
    Job.write o.config.layout.logFile "" ⟨[], .system⟩

/-- The analysis, with remarks before and after it. How many threads work on it is left open. -/
def analyse (o : Options) : Job Unit := do
  let layout := o.config.layout
  if o.logFile then
    Job.remark ("Logging setup complete. Logs will be saved to " ++ layout.logFile)
  Job.remark "Using N worker threads"
  Job.remark ("Starting cluster analysis (" ++ o.config.algorithm.title ++ ")")
  Job.remark ("Input: " ++ layout.graphInput)
  Job.remark ("Output: " ++ layout.clustersDirectory)
  let partitioner ← Job.inspect o.config.loadPartitioner
  let findings ← o.config.run partitioner
  Job.remark ("Analysis complete: " ++ toString findings.clustering.clusters.length ++ " clusters, "
    ++ toString findings.clustering.interCount ++ " inter-cluster edges. Results saved to "
    ++ layout.clustersDirectory)

/-- Puts the lines where they belong. A log file that was made can be written. -/
def keepLog (o : Options) (files : FileTree) (lines : List LogLine) : FileTree × List LogLine :=
  if o.logFile then
    let text := String.join (lines.map LogLine.text)
    ((files.write? o.config.layout.logFile (.text text)).getD files, [])
  else (files, lines)

def execute (o : Options) (files : FileTree) : Completion :=
  let opened := o.openLog files
  match opened.result with
  | .error failure => ⟨opened.files, 1, [], some failure⟩
  | .ok () =>
    let outcome := o.analyse opened.files
    let (files, log) := o.keepLog outcome.files (LogLine.ofNotes o.verbose outcome.notes)
    match outcome.result with
    | .error failure => ⟨files, 1, log, some failure⟩
    | .ok () => ⟨files, 0, log, none⟩

end Options

/-- Help ends well, and arguments out of order end with two. -/
def Request.execute (request : Request) (files : FileTree) : Completion :=
  match request with
  | .run options => options.execute files
  | .help => ⟨files, 0, [], none⟩
  | .invalid => ⟨files, 2, [], none⟩

end CallClusters
