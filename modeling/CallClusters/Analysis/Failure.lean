import CallClusters.Fault
import CallClusters.Text

/-! Why a command stops: a cause, and around it what was being done, outermost first. -/

namespace CallClusters

inductive Cause where
  | message (text : String)
  | fault (fault : Fault)
  /-- The operating system refused; its wording is left open. -/
  | system
  /-- A text did not hold the JSON data that was expected; how it fails is left open. -/
  | json
  deriving DecidableEq

def Cause.text : Cause → String
  | .message s => s
  | .fault f => f.message
  | .system => "<io>"
  | .json => "<json>"

structure Failure where
  contexts : List String
  cause : Cause
  deriving DecidableEq

namespace Failure

def ofMessage (text : String) : Failure := ⟨[], .message text⟩

def ofFault (fault : Fault) : Failure := ⟨[], .fault fault⟩

def within (failure : Failure) (context : String) : Failure :=
  { failure with contexts := context :: failure.contexts }

def text (failure : Failure) : String :=
  String.intercalate ": " (failure.contexts ++ [failure.cause.text])

/-- The first line of the outermost text. -/
def headline (failure : Failure) : String :=
  let outermost := failure.contexts.headD failure.cause.text
  String.ofList ((Text.lines outermost.toList).headD [])

end Failure

end CallClusters
