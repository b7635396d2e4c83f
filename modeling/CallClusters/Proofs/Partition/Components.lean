import CallClusters.Partition.Partitioner
import CallClusters.Proofs.DisjointSets.Classes
import CallClusters.Proofs.Distinct
import Mathlib.Data.List.FinRange

/-! The computed components are the weakly connected ones: positions share a group exactly when a
walk along arcs, in either direction, leads from one to the other. Joining along every arc makes
the classes; grouping the positions by their roots puts them in order. -/

namespace CallClusters

open Relation DisjointSets

namespace Adjacency

variable {W : Type}

/-- Some arc runs between the two positions, one way or the other. -/
def Touching (a : Adjacency W) (i j : Fin a.names.length) : Prop :=
  ∃ arc ∈ a.arcs, (arc.source = i ∧ arc.target = j) ∨ (arc.source = j ∧ arc.target = i)

/-- A walk leads from one position to the other. -/
def Connected (a : Adjacency W) : Fin a.names.length → Fin a.names.length → Prop :=
  ReflTransGen a.Touching

theorem mem_endpoints (a : Adjacency W) (i j : Fin a.names.length) :
    (i, j) ∈ a.endpoints ↔ ∃ arc ∈ a.arcs, arc.source = i ∧ arc.target = j := by
  simp [endpoints, Fin.ext_iff, and_left_comm]

theorem eqvGen_endpoints (a : Adjacency W) :
    EqvGen (fun i j => (i, j) ∈ a.endpoints) = a.Connected := by
  rw [← EqvGen.reflTransGen_symmGen, Connected]
  congr 1
  funext i j
  apply propext
  change (i, j) ∈ a.endpoints ∨ (j, i) ∈ a.endpoints ↔ _
  rw [mem_endpoints, mem_endpoints, Touching]
  constructor
  · rintro (⟨arc, h, hends⟩ | ⟨arc, h, hends⟩)
    · exact ⟨arc, h, .inl hends⟩
    · exact ⟨arc, h, .inr hends⟩
  · rintro ⟨arc, h, hends | hends⟩
    · exact .inl ⟨arc, h, hends⟩
    · exact .inr ⟨arc, h, hends⟩

/-- Unions along a list of pairs add these pairs to the relation. -/
theorem represents_foldl_union {n : Nat} (pairs : List (Fin n × Fin n)) (s : DisjointSets n)
    (R : Fin n → Fin n → Prop) (h : s.Represents R) :
    (pairs.foldl (fun s e => s.union e.1 e.2) s).Represents fun i j => R i j ∨ (i, j) ∈ pairs := by
  induction pairs generalizing s R with
  | nil => exact h.congr fun i j => by simp
  | cons e pairs ih =>
    exact (ih _ _ (h.union e.1 e.2)).congr fun i j => by simp [Prod.ext_iff, or_assoc]

theorem root_joined_eq_iff (a : Adjacency W) (i j : Fin a.names.length) :
    a.joined.root i = a.joined.root j ↔ a.Connected i j := by
  have h : a.joined.Represents fun i j => (i, j) ∈ a.endpoints :=
    (represents_foldl_union a.endpoints _ _ represents_singletons).congr fun i j => by simp
  rw [h i j, eqvGen_endpoints]

end Adjacency

/-! ### Grouping positions by their roots -/

/-- The groups are those of the positions `is` so far, and every root that they have is known
with its group. -/
structure Grouping.Holds {n : Nat} (g : Grouping n) (root : Fin n → Fin n)
    (name : Fin n → String) (is : List (Fin n)) : Prop where
  slots : ∀ r, g.slots.lookup r = (is.map root).eraseDups.idxOf? r
  groups : g.groups = (groupsBy root is).map (·.map name)

namespace Grouping

variable {n : Nat} {root : Fin n → Fin n} {name : Fin n → String}

theorem holds_empty : (empty : Grouping n).Holds root name [] := ⟨fun _ => rfl, rfl⟩

theorem Holds.add {g : Grouping n} {is : List (Fin n)} (h : g.Holds root name is) (i : Fin n) :
    (g.add (root i) (name i)).Holds root name (is ++ [i]) := by
  unfold Grouping.add
  cases hslot : g.slots.lookup (root i) with
  | some slot =>
    rw [h.slots] at hslot
    have hmem : root i ∈ is.map root := by
      rw [← List.mem_eraseDups, ← List.isSome_idxOf?, hslot, Option.isSome_some]
    constructor
    · intro r
      rw [h.slots, List.map_append, List.map_singleton, eraseDups_concat_of_mem hmem]
    · simp only [h.groups, groupsBy_concat_of_mem hslot]
      apply List.ext_getElem
      · simp
      · intro k _ _
        by_cases hk : slot = k <;> simp [hk]
  | none =>
    rw [h.slots, List.idxOf?_eq_none_iff] at hslot
    have hnew : root i ∉ is.map root := by rwa [List.mem_eraseDups] at hslot
    constructor
    · intro r
      have hlength : g.groups.length = (is.map root).eraseDups.length := by
        simp [h.groups, groupsBy]
      rw [List.map_append, List.map_singleton, eraseDups_concat_of_not_mem hnew,
        idxOf?_concat hslot, List.lookup_cons, h.slots, hlength]
      cases r == root i <;> rfl
    · simp [h.groups, groupsBy_concat_of_not_mem hnew]

end Grouping

namespace Adjacency

variable {W : Type}

/-- Compression on the way moves no root, so the groups come out as if all roots were looked up
at once. -/
theorem holds_collect (a : Adjacency W) (rest is : List (Fin a.names.length))
    (s : DisjointSets a.names.length) (g : Grouping a.names.length)
    (h : g.Holds s.root a.names.get is) :
    (a.collect s g rest).Holds s.root a.names.get (is ++ rest) := by
  induction rest generalizing s g is with
  | nil => simpa [collect] using h
  | cons i rest ih =>
    have hroot : (s.find i).2.root = s.root := funext (s.root_find i)
    have hnext := ih (is ++ [i]) (s.find i).2 (g.add (s.root i) (a.names.get i))
      (hroot ▸ h.add i)
    rw [hroot, List.append_assoc] at hnext
    exact hnext

/-- The components are the groups of positions that share a root, with names for positions. -/
theorem components_eq (a : Adjacency W) :
    a.components =
      (groupsBy a.joined.root (List.finRange a.names.length)).map (·.map a.names.get) :=
  (a.holds_collect (List.finRange _) [] a.joined .empty Grouping.holds_empty).groups

theorem mem_components {a : Adjacency W} {g : List String} :
    g ∈ a.components ↔
      ∃ k ∈ groupsBy a.joined.root (List.finRange a.names.length), k.map a.names.get = g := by
  rw [components_eq, List.mem_map]

theorem flatten_components_perm (a : Adjacency W) : a.components.flatten.Perm a.names := by
  rw [components_eq, ← List.map_flatten]
  have h := (flatten_groupsBy_perm a.joined.root (List.finRange _)).map a.names.get
  rwa [List.map_get_finRange] at h

theorem nil_not_mem_components (a : Adjacency W) : [] ∉ a.components := by
  simp [components_eq, nil_not_mem_groupsBy]

section Distinct
variable {a : Adjacency W} (h : a.names.Nodup)
include h

theorem mem_component_both (i j : Fin a.names.length) :
    (∃ g ∈ a.components, a.names.get i ∈ g ∧ a.names.get j ∈ g) ↔ a.Connected i j := by
  have hinj : Function.Injective a.names.get := List.nodup_iff_injective_get.1 h
  rw [← root_joined_eq_iff, ← mem_groupsBy_both (List.mem_finRange i) (List.mem_finRange j)]
  constructor
  · rintro ⟨_, hg, hi, hj⟩
    obtain ⟨k, hk, rfl⟩ := mem_components.1 hg
    exact ⟨k, hk, (List.mem_map_of_injective hinj).1 hi, (List.mem_map_of_injective hinj).1 hj⟩
  · rintro ⟨g, hg, hi, hj⟩
    exact ⟨_, mem_components.2 ⟨g, hg, rfl⟩, List.mem_map_of_mem hi, List.mem_map_of_mem hj⟩

theorem idxOf_get (i : Fin a.names.length) : a.names.idxOf (a.names.get i) = i := by
  simpa using h.idxOf_getElem i i.isLt

theorem pairwise_head_components :
    a.components.Pairwise fun g k =>
      ∀ x ∈ g.head?, ∀ y ∈ k.head?, a.names.idxOf x < a.names.idxOf y := by
  rw [components_eq, List.pairwise_map]
  apply (pairwise_head_groupsBy a.joined.root (List.pairwise_lt_finRange _)).imp
  intro g k hgk x hx y hy
  simp only [List.head?_map, Option.mem_map] at hx hy
  obtain ⟨i, hi, rfl⟩ := hx
  obtain ⟨j, hj, rfl⟩ := hy
  rw [idxOf_get h, idxOf_get h]
  exact hgk i hi j hj

theorem pairwise_idxOf_component {g : List String} (hg : g ∈ a.components) :
    (g.map a.names.idxOf).Pairwise (· < ·) := by
  obtain ⟨k, hk, rfl⟩ := mem_components.1 hg
  obtain ⟨i, -, rfl⟩ := mem_groupsBy.1 hk
  simp only [List.pairwise_map, idxOf_get h]
  exact (List.pairwise_lt_finRange _).filter _

end Distinct

/-- Every name is in one group, once, and no group is empty. Two positions' names share a group
exactly when the positions are connected. The groups come in the order of their first members,
and the members of each in the order of positions. -/
theorem partition_connectedComponents [Number W] (a : Adjacency W) (h : a.names.Nodup) :
    ∃ groups, Partitioner.connectedComponents.partition a = ⟨[], .ok groups⟩ ∧
      groups.flatten.Perm a.names ∧ [] ∉ groups ∧
      (∀ i j : Fin a.names.length,
        (∃ g ∈ groups, a.names.get i ∈ g ∧ a.names.get j ∈ g) ↔ a.Connected i j) ∧
      (groups.Pairwise fun g k =>
        ∀ x ∈ g.head?, ∀ y ∈ k.head?, a.names.idxOf x < a.names.idxOf y) ∧
      ∀ g ∈ groups, (g.map a.names.idxOf).Pairwise (· < ·) :=
  ⟨a.components, rfl, flatten_components_perm a, nil_not_mem_components a, mem_component_both h,
    pairwise_head_components h, fun _ => pairwise_idxOf_component h⟩

/-- An arc from the last position to the first, and a loop between them. -/
theorem partition_connectedComponents_three :
    let a : Adjacency Rat := ⟨["A", "B", "C"], [⟨2, 0, 1⟩, ⟨1, 1, 1⟩], by decide⟩
    a.names.Nodup ∧ ∃ groups : Partition,
      Partitioner.connectedComponents.partition a = ⟨[], .ok groups⟩ ∧
      groups.flatten.Perm ["A", "B", "C"] ∧ ∃ g ∈ groups, "A" ∈ g ∧ "C" ∈ g := by
  intro a
  have h : a.names.Nodup := by decide
  have hwalk : a.Connected 0 2 := .single ⟨⟨2, 0, 1⟩, by simp [a], .inr ⟨rfl, rfl⟩⟩
  obtain ⟨groups, hresult, hperm, -, hboth, -⟩ := partition_connectedComponents a h
  exact ⟨h, groups, hresult, hperm, (hboth 0 2).2 hwalk⟩

end Adjacency

end CallClusters
