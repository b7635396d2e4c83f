import CallClusters.DisjointSets
import CallClusters.Partition.Modularity

/-! The weakly connected components of a graph, as a partition of its nodes. -/

namespace CallClusters

/-- Groups in the making, and for the root of each its position among them. -/
structure Grouping (n : Nat) where
  slots : List (Fin n × Nat)
  groups : Partition

namespace Grouping

variable {n : Nat}

def empty : Grouping n := ⟨[], []⟩

/-- Puts a name into the group of its root. A root that has none yet opens the next group. -/
def add (g : Grouping n) (root : Fin n) (name : String) : Grouping n :=
  match g.slots.lookup root with
  | some slot => { g with groups := g.groups.modify slot (· ++ [name]) }
  | none => ⟨(root, g.groups.length) :: g.slots, g.groups ++ [[name]]⟩

end Grouping

namespace Adjacency

variable {W : Type}

/-- An arc's ends as elements of the disjoint sets of all positions. -/
def endpoints (a : Adjacency W) : List (Fin a.names.length × Fin a.names.length) :=
  a.arcs.attach.map fun ⟨arc, h⟩ =>
    (⟨arc.source, (a.bounded arc h).1⟩, ⟨arc.target, (a.bounded arc h).2⟩)

/-- The positions, joined along every arc. -/
def joined (a : Adjacency W) : DisjointSets a.names.length :=
  a.endpoints.foldl (fun s e => s.union e.1 e.2) (DisjointSets.singletons a.names.length)

/-- Finds the root of one position after another, and puts its name where the root's group is. -/
def collect (a : Adjacency W) (s : DisjointSets a.names.length) (g : Grouping a.names.length) :
    List (Fin a.names.length) → Grouping a.names.length
  | [] => g
  | i :: rest =>
    let (root, s) := s.find i
    a.collect s (g.add root (a.names.get i)) rest

/-- Components come in the order of their first members, and members in node order. -/
def components (a : Adjacency W) : Partition :=
  (a.collect a.joined .empty (List.finRange a.names.length)).groups

end Adjacency

end CallClusters
