import CallClusters.Cluster.Crossing
import CallClusters.Proofs.Distinct
import CallClusters.Proofs.Traced

/-! The same data under other names. Only the names of nodes are replaced: methods, weights, ids and
the texts of messages stay. An injective renaming keeps names apart, so nothing that only compares
names can tell the two apart. -/

namespace CallClusters

variable {W : Type} (f : String → String)

/-! ### Renamed data -/

def Edge.rename (e : Edge W) : Edge W := { e with source := f e.source, target := f e.target }

def Graph.rename (g : Graph W) : Graph W := ⟨g.nodes.map f, g.edges.map (Edge.rename f)⟩

def Partition.rename (p : Partition) : Partition := p.map (List.map f)

/-- What a partitioner stores under other names. -/
def Partitioner.rename : Partitioner → Partitioner
  | .connectedComponents => .connectedComponents
  | .precomputed algorithm groups => .precomputed algorithm (Partition.rename f groups)
  | .girvanNewman levels => .girvanNewman (levels.map (Partition.rename f))

def Cluster.rename (k : Cluster W) : Cluster W :=
  { k with nodes := k.nodes.map f, intraEdges := k.intraEdges.map (Edge.rename f) }

def Clustering.rename (c : Clustering W) : Clustering W :=
  ⟨c.clusters.map (Cluster.rename f), c.interEdges.map (Edge.rename f)⟩

def Event.rename : Event W → Event W
  | .nodeNotFound name => .nodeNotFound (f name)
  | .clusterNotFound node => .clusterNotFound (f node)
  | .edgeSkipped source target reason => .edgeSkipped (f source) (f target) reason
  | event => event

def Fault.rename : Fault → Fault
  | .missingEndpoint role name => .missingEndpoint role (f name)
  | .missingMethod source target field => .missingMethod (f source) (f target) field
  | .unknownMember cluster name => .unknownMember cluster (f name)
  | fault => fault

/-- A computation whose events, fault and value are renamed. -/
def Traced.rename {α : Type} (value : α → α) (x : Traced W α) : Traced W α where
  events := x.events.map (Event.rename f)
  result := match x.result with
    | .ok a => .ok (value a)
    | .error fault => .error (fault.rename f)

namespace Traced

variable {α β : Type} {u : α → α} {v : β → β}

/-- A sequence is renamed part by part. -/
theorem rename_bind {x y : Traced W α} {k l : α → Traced W β} (hx : y = x.rename f u)
    (hk : ∀ a, l (u a) = (k a).rename f v) : y >>= l = (x >>= k).rename f v := by
  subst hx
  cases h : x.result with
  | error fault =>
    have hrenamed : (x.rename f u).result = .error (fault.rename f) := by simp only [rename, h]
    rw [bind_of_error h, bind_of_error hrenamed]
    rfl
  | ok a =>
    have hrenamed : (x.rename f u).result = .ok (u a) := by simp only [rename, h]
    rw [bind_of_ok h, bind_of_ok hrenamed, hk]
    simp only [rename, List.map_append]

theorem emitAll_rename (events : List (Event W)) :
    emitAll (events.map (Event.rename f)) = (emitAll events).rename f id := rfl

end Traced

/-! ### Lists of names -/

variable {f} (hf : Function.Injective f)
include hf

theorem beq_rename (x y : String) : (f x == f y) = (x == y) := by
  rw [Bool.eq_iff_iff, beq_iff_eq, beq_iff_eq, hf.eq_iff]

theorem contains_rename (names : List String) (x : String) :
    (names.map f).contains (f x) = names.contains x := by
  rw [Bool.eq_iff_iff, List.contains_iff_mem, List.contains_iff_mem, List.mem_map_of_injective hf]

theorem idxOf?_rename (names : List String) (x : String) :
    (names.map f).idxOf? (f x) = names.idxOf? x := by
  rw [List.idxOf?, List.idxOf?, List.findIdx?_map]
  congr 1
  funext y
  exact beq_rename hf y x

/-! ### Graphs -/

namespace Graph

variable (g : Graph W)

theorem names_rename : (g.rename f).names = g.names.map f := eraseDups_map_of_injective hf g.nodes

theorem contains_rename (name : String) : (g.rename f).contains (f name) = g.contains name :=
  CallClusters.contains_rename hf g.nodes name

theorem dangles_rename (e : Edge W) : (g.rename f).dangles (e.rename f) = g.dangles e := by
  simp only [dangles, Edge.rename, contains_rename hf]

theorem edgesWithin_rename (names : List String) :
    (g.rename f).edgesWithin (names.map f) = (g.edgesWithin names).map (Edge.rename f) := by
  rw [edgesWithin, rename, List.filter_map]
  congr 2
  funext e
  simp only [Function.comp_apply, Edge.rename, CallClusters.contains_rename hf]

/-- The dangling edges are the same, and they are reported in the same order. -/
theorem adjacencyEvents_rename :
    (g.rename f).adjacencyEvents = g.adjacencyEvents.map (Event.rename f) := by
  have hsame : (g.rename f).dangles ∘ Edge.rename f = g.dangles := funext (dangles_rename hf g)
  rw [adjacencyEvents, adjacencyEvents, List.map_map]
  change ((g.edges.map (Edge.rename f)).filter (g.rename f).dangles).map _ = _
  rw [List.filter_map, hsame, List.map_map]
  rfl

end Graph

end CallClusters
