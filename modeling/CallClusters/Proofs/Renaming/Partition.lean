import CallClusters.Proofs.Graph.Adjacency
import CallClusters.Proofs.Partition.Communities
import CallClusters.Proofs.Partition.Components
import CallClusters.Proofs.Renaming.Data

/-! Partitions under other names. Arcs run between positions, and so the adjacency of a renamed graph
has the same arcs; communities are looked up by names, and so a table of renamed communities has the
same answers. Every partitioner then finds the renamed partition, with the same scores. -/

namespace CallClusters

variable {W : Type}

/-! ### Groups of positions -/

/-- The groups of the elements that are joined along pairs, with a name for each element. -/
def groupsJoined {n : Nat} (name : Fin n → String) (pairs : List (Fin n × Fin n)) : Partition :=
  let joined := pairs.foldl (fun s e => s.union e.1 e.2) (DisjointSets.singletons n)
  (groupsBy joined.root (List.finRange n)).map (·.map name)

theorem Adjacency.components_eq_groupsJoined (a : Adjacency W) :
    a.components = groupsJoined a.names.get a.endpoints := a.components_eq

variable {f : String → String}

/-- The groups are made of the elements alone. The number of elements may be written differently. -/
theorem groupsJoined_rename {n m : Nat} (h : n = m) {name : Fin n → String} {other : Fin m → String}
    (hname : ∀ i, other (i.cast h) = f (name i)) (pairs : List (Fin n × Fin n)) :
    groupsJoined other (pairs.map fun e => (e.1.cast h, e.2.cast h)) =
      (groupsJoined name pairs).rename f := by
  subst h
  have hother : other = f ∘ name := funext hname
  have hpairs : (pairs.map fun e => (e.1.cast rfl, e.2.cast rfl)) = pairs := List.map_id' pairs
  rw [hpairs, hother, groupsJoined, groupsJoined, Partition.rename, List.map_map]
  congr 1
  funext group
  rw [Function.comp_apply, List.map_map]

/-! ### The adjacency -/

namespace Adjacency

/-- The same arcs between positions with other names. -/
def rename (f : String → String) (a : Adjacency W) : Adjacency W where
  names := a.names.map f
  arcs := a.arcs
  bounded arc h := by simpa using a.bounded arc h

variable (a : Adjacency W)

theorem components_rename : (a.rename f).components = a.components.rename f := by
  have hlength : a.names.length = (a.rename f).names.length := (List.length_map f).symm
  have hends : (a.rename f).endpoints =
      a.endpoints.map fun e => (e.1.cast hlength, e.2.cast hlength) := by
    rw [endpoints, endpoints, List.map_map]
    rfl
  rw [components_eq_groupsJoined, components_eq_groupsJoined, hends]
  refine groupsJoined_rename hlength (fun i => ?_) a.endpoints
  exact List.getElem_map f

end Adjacency

variable (hf : Function.Injective f)
include hf

theorem Graph.arcOf_rename (names : List String) (e : Edge W) :
    arcOf (names.map f) (e.rename f) = arcOf names e := by
  simp only [arcOf, Edge.rename, idxOf?_rename hf]

theorem Graph.adjacency_rename (g : Graph W) : (g.rename f).adjacency = g.adjacency.rename f := by
  have hnames := g.names_rename hf
  have harcs : (g.edges.map (Edge.rename f)).filterMap (arcOf (g.names.map f)) =
      g.edges.filterMap (arcOf g.names) := by
    rw [List.filterMap_map]
    congr 1
    funext e
    exact arcOf_rename hf g.names e
  rw [adjacency, adjacency, Adjacency.rename, Adjacency.mk.injEq]
  refine ⟨hnames, ?_⟩
  rw [hnames]
  exact harcs

/-! ### Modularity -/

theorem Partition.communityOf_rename (p : Partition) (name : String) :
    (p.rename f).communityOf (f name) = p.communityOf name := by
  rw [communityOf, communityOf, rename, List.findIdx?_map]
  congr 1
  funext community
  exact contains_rename hf community name

namespace Adjacency

variable (a : Adjacency W) (p : Partition)

theorem communityAt_rename (i : Nat) :
    (a.rename f).communityAt (p.rename f).index i = a.communityAt p.index i := by
  rw [communityAt, communityAt, rename, List.getElem?_map, Option.bind_map]
  congr 1
  funext name
  rw [Function.comp_apply, Partition.lookup_index, Partition.lookup_index,
    p.communityOf_rename hf]

variable [Number W]

theorem modularity_rename : (a.rename f).modularity (p.rename f) = a.modularity p := by
  have hplace : (a.rename f).place (p.rename f).index = a.place p.index := by
    funext arc
    simp only [place, communityAt_rename hf]
  have hlength : (p.rename f).length = p.length := List.length_map _
  simp only [modularity, hplace, hlength]
  rfl

/-! ### Levels -/

theorem scoreLevels_rename (number : Nat) (levels : List Partition) :
    (a.rename f).scoreLevels number (levels.map (Partition.rename f)) =
      (a.scoreLevels number levels).map fun (number, score, level) =>
        (number, score, level.rename f) := by
  induction levels generalizing number with
  | nil => rfl
  | cons level levels ih =>
    rw [List.map_cons, scoreLevels, scoreLevels, List.map_cons, ih, modularity_rename hf]

omit hf in
/-- Which level is kept depends on the scores only. -/
theorem climb_rename (best : W) (kept : Option (Nat × Partition))
    (scored : List (Nat × W × Partition)) :
    climb best (kept.map fun (number, level) => (number, level.rename f))
        (scored.map fun (number, score, level) => (number, score, level.rename f)) =
      (climb best kept scored).map fun (number, level) => (number, level.rename f) := by
  induction scored generalizing best kept with
  | nil => rfl
  | cons level scored ih =>
    simp only [List.map_cons, climb]
    split
    · exact ih level.2.1 (some (level.1, level.2.2))
    · exact ih best kept

theorem selectLevel_rename (levels : List Partition) :
    (a.rename f).selectLevel (levels.map (Partition.rename f)) =
      (a.selectLevel levels).rename f (Partition.rename f) := by
  have hclimb := climb_rename (f := f) (Number.ofNat 0) none (a.scoreLevels 1 levels)
  rw [Option.map_none] at hclimb
  rw [selectLevel, selectLevel, scoreLevels_rename hf]
  refine Traced.rename_bind f (u := id) ?_ fun _ => ?_
  · rw [← Traced.emitAll_rename, List.map_map, List.map_map]
    rfl
  · rw [hclimb]
    cases climb (Number.ofNat 0) none (a.scoreLevels 1 levels) with
    | some kept => rfl
    | none =>
      rw [Option.map_none, List.getLast?_map]
      cases levels.getLast? <;> rfl

end Adjacency

/-- The renamed partitioner chooses the renamed partition, and reports the same scores. -/
theorem Partitioner.partition_rename [Number W] (partitioner : Partitioner) (a : Adjacency W) :
    (partitioner.rename f).partition (a.rename f) =
      (partitioner.partition a).rename f (Partition.rename f) := by
  cases partitioner with
  | connectedComponents =>
    simp only [rename, partition, a.components_rename]
    rfl
  | precomputed algorithm groups => rfl
  | girvanNewman levels =>
    have heverything : (a.rename f).everything = Partition.rename f a.everything := rfl
    refine Traced.rename_bind f (u := id) ?_ fun _ => a.selectLevel_rename hf levels
    rw [heverything, a.modularity_rename hf]
    rfl

end CallClusters
