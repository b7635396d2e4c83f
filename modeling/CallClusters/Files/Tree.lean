import CallClusters.Files.Path

/-! A tree of directories and files, held in memory. An entry is found by the names that lead to
it from the root, and the root itself is always there. Operations take paths as texts and fail as
they would on a disk: below a plain file there is nothing, and a directory is not written to. -/

namespace CallClusters

/-- A file holds text, or bytes that are no text. -/
inductive Content where
  | text (s : String)
  | binary (bytes : List UInt8)
  deriving DecidableEq

def Content.ofBytes (bytes : ByteArray) : Content :=
  match String.fromUTF8? bytes with
  | some s => .text s
  | none => .binary bytes.toList

inductive Entry where
  | directory
  | file (content : Content)
  deriving DecidableEq

/-- The names that lead to an entry from the root. -/
abbrev Place := Array String

structure FileTree where
  entries : List (Place × Entry)
  /-- The directory from which paths start, unless they start with a slash. -/
  here : Place

namespace FileTree

def find? (t : FileTree) (place : Place) : Option Entry :=
  if place.isEmpty then some .directory else t.entries.lookup place

/-- Puts an entry in place of the one that was there. -/
def insert (t : FileTree) (place : Place) (entry : Entry) : FileTree :=
  { t with entries := (place, entry) :: t.entries.filter fun e => e.1 != place }

def isDirectory (t : FileTree) (place : Place) : Bool := t.find? place == some .directory

/-- Follows steps from `here`. All but the last step lead to directories that are there. -/
def walk (t : FileTree) (here : Place) : List Path.Step → Option Place
  | [] => some here
  | step :: rest =>
    if t.isDirectory here then
      match step with
      | .up => t.walk here.pop rest
      | .down name => if Path.fits name then t.walk (here.push name) rest else none
    else none

/-- Where a path starts. -/
def base (t : FileTree) (path : String) : Place := if Path.isAbsolute path then #[] else t.here

/-- The place of a path; there need not be anything, but there must be a directory above it. -/
def locate (t : FileTree) (path : String) : Option Place :=
  if path == "" || !Path.usable path then none else t.walk (t.base path) (Path.steps path)

/-- What is at a path. -/
def get? (t : FileTree) (path : String) : Option Entry := do
  let place ← t.locate path
  match ← t.find? place with
  | .directory => some .directory
  | .file content => if Path.namesDirectory path then none else some (.file content)

/-- The text of a file; a directory and bytes that are no text cannot be read. -/
def read? (t : FileTree) (path : String) : Option String :=
  match t.get? path with
  | some (.file (.text s)) => some s
  | _ => none

/-- Makes the directories along the steps that are missing. It stops at a plain file in the way,
and what was made before then stays. -/
def makeAlong (t : FileTree) (here : Place) : List Path.Step → FileTree × Bool
  | [] => (t, true)
  | .up :: rest => t.makeAlong here.pop rest
  | .down name :: rest =>
    if Path.fits name then
      let place := here.push name
      match t.find? place with
      | none => (t.insert place .directory).makeAlong place rest
      | some .directory => t.makeAlong place rest
      | some (.file _) => (t, false)
    else (t, false)

/-- No directory but `here` and those above it. -/
def startingAt (here : List String) : FileTree :=
  (makeAlong ⟨[], here.toArray⟩ #[] (here.map .down)).1

/-- Makes a directory and all that are missing above it; false tells of a failure. A path that ends
in a dot speaks of a directory that has to be there, so that only those above it are made. -/
def makeDirectories (t : FileTree) (path : String) : FileTree × Bool :=
  if !Path.usable path then (t, false)
  else if Path.endsInDot path then
    let (made, ok) := t.makeAlong (t.base path) (Path.steps path).dropLast
    (made, ok && made.get? path == some .directory)
  else t.makeAlong (t.base path) (Path.steps path)

/-- Makes the directories above a path. -/
def makeParents (t : FileTree) (path : String) : FileTree × Bool :=
  t.makeDirectories (Path.parent path)

/-- Writes a file into a directory that is there, over one that may be there. -/
def write? (t : FileTree) (path : String) (content : Content) : Option FileTree := do
  let place ← t.locate path
  if t.isDirectory place || Path.namesDirectory path then none
  else some (t.insert place (.file content))

/-- The path of an entry from `here`, if it lies below; a directory's path ends in a slash. -/
def pathText? (t : FileTree) (place : Place) (entry : Entry) : Option String :=
  if t.here.isPrefixOf place && t.here.size < place.size then
    some (String.intercalate "/" (place.toList.drop t.here.size) ++ match entry with
      | .directory => "/"
      | .file _ => "")
  else none

/-- All paths below `here`, sorted. -/
def list (t : FileTree) : List String :=
  (t.entries.filterMap fun (place, entry) => t.pathText? place entry).mergeSort
    (fun a b => decide (a ≤ b))

/-- The text files of the given name below `here`, sorted by their paths. -/
def named (t : FileTree) (name : String) : List (String × String) :=
  (t.entries.filterMap fun (place, entry) =>
    match entry with
    | .file (.text s) =>
      if place.back? == some name then (t.pathText? place entry).map (·, s) else none
    | _ => none).mergeSort (fun a b => decide (a.1 ≤ b.1))

end FileTree

end CallClusters
