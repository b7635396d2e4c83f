import CallClusters.Graph.Basic
import CallClusters.Number

/-! How many edges end and start at each node, and the averages and medians of such counts. -/

namespace CallClusters

/-- The middle of the sorted values, or half the sum of the two middle ones. -/
def median {W : Type} [Number W] (values : List Nat) : Option W :=
  let sorted := values.mergeSort (fun a b => decide (a ≤ b))
  let half := sorted.length / 2
  if sorted.length % 2 = 1 then sorted[half]?.map Number.ofNat
  else match sorted[half - 1]?, sorted[half]? with
    | some low, some high => some (Number.ofNat (low + high) / Number.ofNat 2)
    | _, _ => none

namespace Graph

variable {W : Type}

/-- For every distinct node, in node order, the number of edges that have it at the given end. -/
def degrees (g : Graph W) (endpoint : Edge W → String) : List Nat :=
  g.names.map fun name => g.edges.countP fun e => endpoint e == name

def inDegrees (g : Graph W) : List Nat := g.degrees Edge.target

def outDegrees (g : Graph W) : List Nat := g.degrees Edge.source

variable [Number W]

/-- The in-degrees' sum over the number of nodes, where repeated nodes count again. -/
def averageDegree (g : Graph W) : Except Fault W :=
  if g.isEmpty then .error (.emptyGraph "average edges per node")
  else .ok (Number.ofNat (total g.inDegrees) / Number.ofNat g.nodes.length)

def medianInDegree (g : Graph W) : Except Fault W :=
  match median g.inDegrees with
  | some m => .ok m
  | none => .error (.emptyGraph "median incoming edges per node")

def medianOutDegree (g : Graph W) : Except Fault W :=
  match median g.outDegrees with
  | some m => .ok m
  | none => .error (.emptyGraph "median outgoing edges per node")

end Graph

end CallClusters
