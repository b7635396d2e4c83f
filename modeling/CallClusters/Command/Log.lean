import CallClusters.Analysis.Job
import CallClusters.Message
import CallClusters.Text

/-! The log of a command: levels, lines, and the text of a log file. -/

namespace CallClusters

inductive Level where
  | error | warn | info | debug
  deriving DecidableEq

def Level.word : Level → String
  | .error => "ERROR"
  | .warn => "WARN"
  | .info => "INFO"
  | .debug => "DEBUG"

def Event.level : Event Float → Level
  | .inputRejected .. => .error
  | .levelModularity .. => .debug
  | event => if event.isWarning then .warn else .info

def Note.level : Note → Level
  | .event e => e.level
  | .remark _ => .info

def Note.text : Note → String
  | .event e => e.text
  | .remark s => s

structure LogLine where
  level : String
  message : String
  deriving DecidableEq

namespace LogLine

/-- Further lines of a message are set in by four blanks. -/
def indented (message : String) : String :=
  String.intercalate "\n    " (Text.parts '\n' message)

def ofNote (n : Note) : LogLine := ⟨n.level.word, indented n.text⟩

def text (l : LogLine) : String := "[" ++ l.level ++ "] " ++ l.message ++ "\n"

/-- The lines for notes; those for debugging are only written on demand. -/
def ofNotes (verbose : Bool) (notes : List Note) : List LogLine :=
  (notes.filter fun n => verbose || n.level != .debug).map ofNote

/-- A line that opens with a level in brackets. -/
def opening? (line : List Char) : Option LogLine :=
  match line with
  | '[' :: rest =>
    match rest.dropWhile (· != ']') with
    | ']' :: ' ' :: message => some ⟨String.ofList (rest.takeWhile (· != ']')), String.ofList message⟩
    | _ => none
  | _ => none

/-- Reads a log file: a line without a level goes on with the message before it. -/
def ofText (text : String) : List LogLine :=
  let lines := (Text.lines text.toList).dropLast
  (lines.foldl (fun (read : List LogLine) line =>
    match opening? line, read with
    | some l, _ => l :: read
    | none, last :: before =>
      { last with message := last.message ++ "\n" ++ String.ofList line } :: before
    | none, [] => []) []).reverse

end LogLine

end CallClusters
