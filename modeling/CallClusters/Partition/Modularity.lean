import CallClusters.Graph.Adjacency
import CallClusters.Graph.Builder
import CallClusters.Number

/-! Directed modularity: how much more weight lies inside the communities of a partition than
the weighted degrees of their members would lead one to expect. -/

namespace CallClusters

/-- Communities of node names. They may overlap, repeat names and leave nodes out. -/
abbrev Partition := List (List String)

/-- Enters names at one place. A name that has a place already keeps it. -/
def NameIndex.enterAll (index : NameIndex) (place : Nat) (names : List String) : NameIndex :=
  names.foldl (fun index name => (index.enter name place).1) index

namespace Partition

/-- Enters the names of communities, which are counted from `place`. -/
def indexOnto (index : NameIndex) (place : Nat) : Partition → NameIndex
  | [] => index
  | community :: rest => indexOnto (index.enterAll place community) (place + 1) rest

/-- The communities of names. A name that several of them list belongs to the first one. -/
def index (p : Partition) : NameIndex := p.indexOnto [] 0

end Partition

namespace Adjacency

variable {W : Type}

/-- The community of the name at a position. -/
def communityAt (a : Adjacency W) (communities : NameIndex) (i : Nat) : Option Nat :=
  a.names[i]?.bind fun name => communities.lookup name

/-- An arc's weight, with the communities of its source and its target. -/
structure Placed (W : Type) where
  source : Option Nat
  target : Option Nat
  weight : W

def place (a : Adjacency W) (communities : NameIndex) (arc : Arc W) : Placed W where
  source := a.communityAt communities arc.source
  target := a.communityAt communities arc.target
  weight := arc.weight

/-- Both ends are members of community `c`. -/
def Placed.isInside (arc : Placed W) (c : Nat) : Bool := arc.source == some c && arc.target == some c

variable [Number W]

def totalWeight (a : Adjacency W) : W := Number.sum (a.arcs.map Arc.weight)

/-- The weight of the arcs within community `c`. -/
def internalWeight (arcs : List (Placed W)) (c : Nat) : W :=
  Number.tally ((arcs.filter fun arc => arc.isInside c).map Placed.weight)

/-- The weight of the arcs out of members of community `c`. -/
def outWeight (arcs : List (Placed W)) (c : Nat) : W :=
  Number.tally ((arcs.filter fun arc => arc.source == some c).map Placed.weight)

/-- The weight of the arcs into members of community `c`. -/
def inWeight (arcs : List (Placed W)) (c : Nat) : W :=
  Number.tally ((arcs.filter fun arc => arc.target == some c).map Placed.weight)

/-- The sum over communities of `internal / total - out * in / total²`; zero where there is no
weight. -/
def modularity (a : Adjacency W) (p : Partition) : W :=
  let total := a.totalWeight
  if Number.isZero total then Number.ofNat 0
  else
    let communities := p.index
    let arcs := a.arcs.map (a.place communities)
    Number.sum ((List.range p.length).map fun c =>
      internalWeight arcs c / total - outWeight arcs c * inWeight arcs c / (total * total))

end Adjacency

end CallClusters
