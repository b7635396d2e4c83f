import CallClusters.Partition.Algorithm
import CallClusters.Partition.Components
import CallClusters.Traced

/-! Where a partition comes from: computed components, a partition that was found beforehand, or
the best one among the levels of a hierarchy. -/

namespace CallClusters

inductive Partitioner where
  | connectedComponents
  | precomputed (algorithm : Algorithm) (groups : Partition)
  | girvanNewman (levels : List Partition)
  deriving DecidableEq

def Partitioner.algorithm : Partitioner → Algorithm
  | .connectedComponents => .connectedComponents
  | .precomputed algorithm _ => algorithm
  | .girvanNewman _ => .girvanNewman

namespace Adjacency

variable {W : Type} [Number W]

/-- The levels with their modularity and their number, which counts from `number`. -/
def scoreLevels (a : Adjacency W) (number : Nat) : List Partition → List (Nat × W × Partition)
  | [] => []
  | level :: levels => (number, a.modularity level, level) :: a.scoreLevels (number + 1) levels

/-- Keeps the first score above `best`, and after it each that beats the one kept before. -/
def climb (best : W) (kept : Option (Nat × Partition)) :
    List (Nat × W × Partition) → Option (Nat × Partition)
  | [] => kept
  | (number, score, level) :: rest =>
    if Number.less best score then climb score (some (number, level)) rest
    else climb best kept rest

/-- The first level with the highest modularity, if that is above zero, else the last level. -/
def selectLevel (a : Adjacency W) (levels : List Partition) : Traced W Partition := do
  let scored := a.scoreLevels 1 levels
  Traced.emitAll (scored.map fun (number, score, _) => .levelModularity number score)
  match climb (Number.ofNat 0) none scored with
  | some (number, level) =>
    Traced.emit (.levelSelected number)
    return level
  | none =>
    match levels.getLast? with
    | some level =>
      Traced.emit .noImprovingLevel
      return level
    | none => Traced.fail .noLevels

/-- All nodes as one community. -/
def everything (a : Adjacency W) : Partition := [a.names]

end Adjacency

def Partitioner.partition {W : Type} [Number W] (p : Partitioner) (a : Adjacency W) :
    Traced W Partition :=
  match p with
  | .connectedComponents => return a.components
  | .precomputed _ groups => return groups
  | .girvanNewman levels => do
    Traced.emit (.baseModularity (a.modularity a.everything))
    a.selectLevel levels

end CallClusters
