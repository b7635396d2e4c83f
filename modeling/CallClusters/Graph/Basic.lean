import CallClusters.Fault

/-! Call graphs: classes named by strings, and the calls between them as a directed multigraph.
Nothing here requires that an edge's ends are listed as nodes; `Graph.insertEdge` checks it. -/

namespace CallClusters

structure Parameter where
  type : String
  name : String
  deriving DecidableEq

structure Method where
  name : String
  parameters : List Parameter
  returnType : String
  declaringClass : String
  signature : String
  deriving DecidableEq

/-- The method about which nothing is known. -/
def Method.blank : Method := ⟨"", [], "", "", ""⟩

/-- The signature is a text made from the other parts, so it does not tell methods apart. -/
def Method.alike (a b : Method) : Bool :=
  a.name == b.name && decide (a.parameters = b.parameters) && a.returnType == b.returnType
    && a.declaringClass == b.declaringClass

/-- A call: `caller`, a method of `source`, calls `method` of `target`. -/
structure Edge (W : Type) where
  source : String
  target : String
  method : Method
  caller : Method
  weight : W
  deriving DecidableEq

namespace Edge

variable {W : Type}

/-- The names of both ends. -/
def ends (e : Edge W) : String × String := (e.source, e.target)

/-- Edges between the same ends in the same direction are alike, whatever they call. -/
def alike (a b : Edge W) : Bool := a.ends == b.ends

/-- Edges are ordered by source, then by target. -/
def order (a b : Edge W) : Ordering := (compare a.source b.source).then (compare a.target b.target)

end Edge

structure Graph (W : Type) where
  nodes : List String
  edges : List (Edge W)
  deriving DecidableEq

namespace Graph

variable {W : Type}

def empty : Graph W := ⟨[], []⟩

def isEmpty (g : Graph W) : Bool := g.nodes.isEmpty

def contains (g : Graph W) (name : String) : Bool := g.nodes.contains name

/-- The first node of that name. -/
def find? (g : Graph W) (name : String) : Option String := g.nodes.find? (· == name)

/-- A name may be inserted again; it is then listed twice. -/
def insertNode (g : Graph W) (name : String) : Graph W := { g with nodes := g.nodes ++ [name] }

/-- Both ends must be nodes already; the source is looked at first. -/
def insertEdge (g : Graph W) (e : Edge W) : Except Fault (Graph W) :=
  if !g.contains e.source then .error (.missingEndpoint .source e.source)
  else if !g.contains e.target then .error (.missingEndpoint .target e.target)
  else .ok { g with edges := g.edges ++ [e] }

/-- Some end of the edge is not a node of the graph. -/
def dangles (g : Graph W) (e : Edge W) : Bool := !(g.contains e.source && g.contains e.target)

/-- The nodes without later repetitions of a name. -/
def names (g : Graph W) : List String := g.nodes.eraseDups

/-- How many pairs of ends the edges have. -/
def distinctEdgeCount (g : Graph W) : Nat := (g.edges.map Edge.ends).eraseDups.length

/-- The names at the ends of edges, sorted. -/
def touched (g : Graph W) : List String :=
  (g.edges.flatMap fun e => [e.source, e.target]).eraseDups.mergeSort (fun a b => decide (a ≤ b))

/-- How many nodes are at no end of an edge; a repeated node counts as often as it is listed. -/
def isolatedCount (g : Graph W) : Nat :=
  let touched := g.touched
  (g.nodes.filter fun name => !touched.contains name).length

end Graph

end CallClusters
