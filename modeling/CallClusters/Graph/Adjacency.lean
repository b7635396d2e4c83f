import CallClusters.Graph.Basic
import CallClusters.Event

/-! The view of a graph that community detection works on: distinct names in order, and weighted
arcs between their positions. Edges with an end that is no node have no place in it. -/

namespace CallClusters

structure Arc (W : Type) where
  source : Nat
  target : Nat
  weight : W

structure Adjacency (W : Type) where
  names : List String
  arcs : List (Arc W)
  bounded : ∀ arc ∈ arcs, arc.source < names.length ∧ arc.target < names.length

namespace Graph

variable {W : Type}

/-- The arc between the positions of an edge's ends. -/
def arcOf (names : List String) (e : Edge W) : Option (Arc W) :=
  match names.idxOf? e.source, names.idxOf? e.target with
  | some i, some j => some ⟨i, j, e.weight⟩
  | _, _ => none

theorem arcOf_bounded {names : List String} {e : Edge W} {arc : Arc W}
    (h : arcOf names e = some arc) : arc.source < names.length ∧ arc.target < names.length := by
  unfold arcOf at h
  split at h
  · rename_i i j hi hj
    obtain ⟨hi, -⟩ := List.idxOf?_eq_some_iff.1 hi
    obtain ⟨hj, -⟩ := List.idxOf?_eq_some_iff.1 hj
    cases h
    exact ⟨hi, hj⟩
  · cases h

/-- Parallel edges keep an arc each. -/
def adjacency (g : Graph W) : Adjacency W where
  names := g.names
  arcs := g.edges.filterMap (arcOf g.names)
  bounded arc h := by
    obtain ⟨e, -, he⟩ := List.mem_filterMap.1 h
    exact arcOf_bounded he

/-- The edges that have no arc, each reported. -/
def adjacencyEvents (g : Graph W) : List (Event W) :=
  (g.edges.filter g.dangles).map fun e =>
    .edgeSkipped e.source e.target "endpoint is not a node of the graph"

end Graph

end CallClusters
