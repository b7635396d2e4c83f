import CallClusters.Text

/-! Paths as texts, and the steps through a tree of directories that they stand for. -/

namespace CallClusters.Path

/-- A step up to the parent, or down to an entry. -/
inductive Step where
  | up
  | down (name : String)
  deriving DecidableEq

/-- The path of an entry of a directory: a slash goes between, unless there is one already or
there is no directory to name. -/
def join (directory name : String) : String :=
  if directory == "" || directory.toList.getLast? == some '/' then directory ++ name
  else directory ++ "/" ++ name

/-- Whether a path starts at the root. -/
def isAbsolute (path : String) : Bool := path.toList.head? == some '/'

/-- An empty part and a single dot stay where they are. -/
def stays (part : String) : Bool := part == "" || part == "."

/-- Two dots go up. -/
def steps (path : String) : List Step :=
  (Text.parts '/' path).filterMap fun part =>
    if stays part then none else if part == ".." then some .up else some (.down part)

/-- The path without its last step and without the parts that stay before it. -/
def parent (path : String) : String :=
  let before := ((Text.parts '/' path).reverse.dropWhile stays).tail
  String.intercalate "/" (before.dropWhile stays).reverse

/-- Whether only a directory can have this path. -/
def namesDirectory (path : String) : Bool :=
  match (Text.parts '/' path).getLast? with
  | some last => stays last
  | none => true

/-- Whether a single dot comes last, perhaps with slashes behind it. -/
def endsInDot (path : String) : Bool :=
  ((Text.parts '/' path).reverse.dropWhile (· == "")).head? == some "."

/-- Whether a path can be looked up at all: it is short enough and holds no null character. -/
def usable (path : String) : Bool := path.utf8ByteSize < 4096 && !path.toList.contains '\x00'

/-- Whether a name is short enough for an entry. -/
def fits (name : String) : Bool := name.utf8ByteSize ≤ 255

end CallClusters.Path
