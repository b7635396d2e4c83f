import CallClusters.Analysis.Config
import CallClusters.Text
import CallClusters.Word

/-! The options of the command line. Arguments are taken from left to right, and the first that is
out of order, or asks for help, decides. -/

namespace CallClusters

structure Options where
  config : Config
  threads : Nat
  logFile : Bool
  verbose : Bool
  deriving DecidableEq

/-- What the arguments ask for. -/
inductive Request where
  | run (options : Options)
  | help
  | invalid
  deriving DecidableEq

namespace Options

/-- The options that were given so far. -/
structure Given where
  dataPath : Option String
  algorithm : Option Algorithm
  partition : Option String
  thresholds : Option (List Nat)
  colorSingles : Bool
  skipPages : Bool
  threads : Option Nat
  logFile : Bool
  verbose : Bool

def Given.start : Given := ⟨none, none, none, none, false, false, none, false, false⟩

/-- What was not given takes its default. -/
def Given.options (g : Given) : Options where
  config := {
    dataPath := g.dataPath.getD "data"
    algorithm := g.algorithm.getD .louvain
    partition := g.partition
    thresholds := g.thresholds.getD Config.defaultThresholds
    blackSingles := !g.colorSingles
    skipPages := g.skipPages }
  threads := g.threads.getD 0
  logFile := g.logFile
  verbose := g.verbose

/-! ### Values -/

/-- Digits, perhaps after a plus, of a number that fits 64 bits. -/
def count? (s : String) : Option Nat :=
  let digits := match s.toList with
    | '+' :: digits => digits
    | digits => digits
  if digits.isEmpty || !digits.all Char.isDigit then none
  else
    let n := digits.foldl (fun n c => 10 * n + (c.toNat - '0'.toNat)) 0
    if n < wordBound64 then some n else none

def counts? (s : String) : Option (List Nat) :=
  (Text.parts ',' s).mapM count?

def path? (s : String) : Option String := if s == "" then none else some s

/-- Sets what was not set before. -/
def once? {α : Type} (old new : Option α) : Option (Option α) :=
  match old, new with
  | none, some a => some (some a)
  | _, _ => none

/-! ### Names -/

/-- Sets the flag of a name. No flag may be given twice. -/
def Given.flag? (g : Given) (name : String) : Option Given :=
  match name with
  | "color-single-node-clusters" =>
    if g.colorSingles then none else some { g with colorSingles := true }
  | "skip-viz" => if g.skipPages then none else some { g with skipPages := true }
  | "log-file" => if g.logFile then none else some { g with logFile := true }
  | "verbose" => if g.verbose then none else some { g with verbose := true }
  | _ => none

/-- Sets the value of a name; only thresholds may be given again, and then add up. -/
def Given.value? (g : Given) (name value : String) : Option Given :=
  match name with
  | "data-path" => do return { g with dataPath := ← once? g.dataPath (path? value) }
  | "algorithm" => do
    return { g with algorithm := ← once? g.algorithm (Algorithm.ofOption? value false) }
  | "partition" => do return { g with partition := ← once? g.partition (path? value) }
  | "thresholds" => do
    return { g with thresholds := some (g.thresholds.getD [] ++ (← counts? value)) }
  | "threads" => do return { g with threads := ← once? g.threads (count? value) }
  | _ => none

def takesValue (name : String) : Bool :=
  ["data-path", "algorithm", "partition", "thresholds", "threads"].contains name

/-- The name of a long option, and the value after an equals sign. -/
def long? (argument : String) : Option (String × Option String) :=
  match argument.toList with
  | '-' :: '-' :: rest =>
    let name := String.ofList (rest.takeWhile (· != '='))
    match rest.dropWhile (· != '=') with
    | [] => some (name, none)
    | _ :: value => some (name, some (String.ofList value))
  | _ => none

/-- An argument that cannot be the value of the option before it. -/
def looksLikeOption (argument : String) : Bool := argument.toList.head? == some '-' && argument != "-"

/-- The letters of one argument behind a single dash. -/
def Given.letters (g : Given) : List Char → Sum Request Given
  | [] => .inr g
  | 'h' :: _ => .inl .help
  | 'v' :: rest => if g.verbose then .inl .invalid else { g with verbose := true }.letters rest
  | _ => .inl .invalid

def Given.take (g : Given) : List String → Request
  | [] => .run g.options
  | ["--"] => .run g.options
  | "--" :: _ => .invalid
  | argument :: rest =>
    match long? argument with
    | some ("help", none) => .help
    | some (name, some value) =>
      match g.value? name value with
      | some g => g.take rest
      | none => .invalid
    | some (name, none) =>
      if takesValue name then
        match rest with
        | [] => .invalid
        | value :: rest =>
          if looksLikeOption value then .invalid
          else match g.value? name value with
            | some g => g.take rest
            | none => .invalid
      else match g.flag? name with
        | some g => g.take rest
        | none => .invalid
    | none =>
      if looksLikeOption argument then
        match g.letters argument.toList.tail with
        | .inr g => g.take rest
        | .inl request => request
      else .invalid

end Options

def Request.ofArguments (arguments : List String) : Request := Options.Given.start.take arguments

end CallClusters
