import CallClusters.Analysis.Failure
import CallClusters.Files.Tree
import CallClusters.Traced

/-! Work on a file tree that takes notes as it goes and may fail. Files written and notes taken
before a failure stay. -/

namespace CallClusters

/-- An event of the analysis, or a remark on its progress. -/
inductive Note where
  | event (event : Event Float)
  | remark (text : String)
  deriving DecidableEq

structure Outcome (α : Type) where
  files : FileTree
  notes : List Note
  result : Except Failure α

def Job (α : Type) := FileTree → Outcome α

namespace Job

variable {α β : Type}

protected def pure (a : α) : Job α := fun files => ⟨files, [], .ok a⟩

/-- The second part starts from the files that the first part left, if that did not fail. -/
protected def bind (x : Job α) (f : α → Job β) : Job β := fun files =>
  let first := x files
  match first.result with
  | .error failure => ⟨first.files, first.notes, .error failure⟩
  | .ok a =>
    let second := f a first.files
    ⟨second.files, first.notes ++ second.notes, second.result⟩

instance : Monad Job where
  pure := Job.pure
  bind := Job.bind

def note (n : Note) : Job Unit := fun files => ⟨files, [n], .ok ()⟩

def remark (text : String) : Job Unit := note (.remark text)

def emitAll (events : List (Event Float)) : Job Unit := fun files =>
  ⟨files, events.map .event, .ok ()⟩

def emit (event : Event Float) : Job Unit := note (.event event)

def fail (failure : Failure) : Job α := fun files => ⟨files, [], .error failure⟩

/-- A computation that needs no files. -/
def ofTraced (x : Traced Float α) : Job α := fun files =>
  ⟨files, x.events.map .event, x.result.mapError Failure.ofFault⟩

/-- Looks at the files without changing them. -/
def inspect (f : FileTree → Except Failure α) : Job α := fun files => ⟨files, [], f files⟩

/-- Makes a directory and those above it. -/
def makeDirectories (path : String) (failure : Failure) : Job Unit := fun files =>
  match files.makeDirectories path with
  | (files, true) => ⟨files, [], .ok ()⟩
  | (files, false) => ⟨files, [], .error failure⟩

/-- Makes the directories above a file. -/
def makeParents (path : String) (failure : Failure) : Job Unit := fun files =>
  match files.makeParents path with
  | (files, true) => ⟨files, [], .ok ()⟩
  | (files, false) => ⟨files, [], .error failure⟩

def write (path : String) (content : String) (failure : Failure) : Job Unit := fun files =>
  match files.write? path (.text content) with
  | some files => ⟨files, [], .ok ()⟩
  | none => ⟨files, [], .error failure⟩

end Job

end CallClusters
