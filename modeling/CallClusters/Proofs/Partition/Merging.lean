import CallClusters.Proofs.Partition.Bounds
import Mathlib.Algebra.BigOperators.Fin
import Mathlib.Tactic.Ring

/-! Modularity of disjoint communities. Each contributes on its own, by what flows within it, out of
its members and into them. So merging two of them replaces two contributions by that of the union, and
the difference is a matter of what flows between the two. -/

namespace CallClusters

/-! ### Merged communities -/

namespace Partition

/-- The communities `x` and `y` of `p` are one community in `q`, and the others are the same; it does
not matter where they stand. Read from `q` to `p`, a community is split in two. -/
def Merges (p : Partition) (x y : List String) (q : Partition) : Prop :=
  ∃ union rest, (∀ name, name ∈ union ↔ name ∈ x ∨ name ∈ y) ∧ p.Perm (x :: y :: rest) ∧
    q.Perm (union :: rest)

theorem pairwise_disjoint_perm {p q : Partition} (h : p.Perm q) :
    p.Pairwise List.Disjoint ↔ q.Pairwise List.Disjoint :=
  h.pairwise_iff fun hd => hd.symm

theorem Merges.pairwise_disjoint_iff {p q : Partition} {x y : List String} (h : p.Merges x y q) :
    p.Pairwise List.Disjoint ↔ x.Disjoint y ∧ q.Pairwise List.Disjoint := by
  obtain ⟨union, rest, hunion, hp, hq⟩ := h
  have hrest (m : List String) : union.Disjoint m ↔ x.Disjoint m ∧ y.Disjoint m := by
    simp only [List.Disjoint, hunion, or_imp, forall_and]
  rw [pairwise_disjoint_perm hp, pairwise_disjoint_perm hq]
  simp only [List.pairwise_cons, List.forall_mem_cons, hrest, forall_and, and_assoc]

/-- A sum over the positions of the communities is one over the communities. -/
theorem sum_range_length (p : Partition) {f : Nat → Rat} {g : List String → Rat}
    (h : ∀ c m, p[c]? = some m → f c = g m) :
    ∑ c ∈ Finset.range p.length, f c = (p.map g).sum := by
  rw [Finset.sum_range, ← Fin.sum_univ_fun_getElem]
  exact Finset.sum_congr rfl fun c _ => h c p[c] (List.getElem?_eq_getElem c.isLt)

end Partition

namespace Adjacency

variable (a : Adjacency Rat)

/-! ### The flow between members -/

/-- The node at the position is a member of the community. -/
def isMember (m : List String) (i : Nat) : Bool := a.names[i]?.any fun name => m.contains name

theorem isMember_of_getElem? {m : List String} {i : Nat} {name : String}
    (hi : a.names[i]? = some name) : a.isMember m i ↔ name ∈ m := by
  rw [isMember, hi]
  exact List.contains_iff_mem

/-- The weight of the arcs from members of one community to members of another. -/
def flow (x y : List String) : Rat :=
  a.weightOf fun arc => a.isMember x arc.source && a.isMember y arc.target

/-- The weight of the arcs out of members of a community. -/
def outflow (m : List String) : Rat := a.weightOf fun arc => a.isMember m arc.source

/-- The weight of the arcs into members of a community. -/
def inflow (m : List String) : Rat := a.weightOf fun arc => a.isMember m arc.target

theorem weightOf_eq_zero {s : Arc Rat → Bool} (h : ∀ arc ∈ a.arcs, s arc = false) :
    a.weightOf s = 0 := by
  have hnone : a.arcs.filter s = [] := List.filter_eq_nil_iff.2 fun arc harc => by simp [h arc harc]
  rw [weightOf, hnone, List.map_nil, List.sum_nil]

theorem weightOf_or {s t : Arc Rat → Bool} (h : ∀ arc, s arc → ¬ t arc) :
    (a.weightOf fun arc => s arc || t arc) = a.weightOf s + a.weightOf t := by
  have hnone : (a.weightOf fun arc => s arc && t arc) = 0 :=
    a.weightOf_eq_zero fun arc _ => by simpa using h arc
  rw [← weightOf_or_add_and, hnone, add_zero]

section Union
variable {union x y : List String} (hunion : ∀ name, name ∈ union ↔ name ∈ x ∨ name ∈ y)

include hunion in
theorem isMember_union (i : Nat) : a.isMember union i = (a.isMember x i || a.isMember y i) := by
  unfold isMember
  cases a.names[i]? with
  | none => rfl
  | some name => simp [hunion]

theorem not_isMember_of_disjoint (hxy : x.Disjoint y) {i : Nat} (h : a.isMember x i) :
    ¬ a.isMember y i := by
  cases hi : a.names[i]? with
  | none => simp [isMember, hi]
  | some name =>
    rw [a.isMember_of_getElem? hi] at h ⊢
    exact fun hy => hxy h hy

variable (hxy : x.Disjoint y)
include hunion hxy

/-- Of the arcs with some end in the union, each has it in one of the two. -/
theorem weightOf_union (position : Arc Rat → Nat) (s : Arc Rat → Bool) :
    (a.weightOf fun arc => a.isMember union (position arc) && s arc) =
      (a.weightOf fun arc => a.isMember x (position arc) && s arc) +
        a.weightOf fun arc => a.isMember y (position arc) && s arc := by
  simp only [a.isMember_union hunion, Bool.and_or_distrib_right]
  refine a.weightOf_or fun arc hx hy => ?_
  exact a.not_isMember_of_disjoint hxy (Bool.and_eq_true_iff.1 hx).1 (Bool.and_eq_true_iff.1 hy).1

theorem outflow_union : a.outflow union = a.outflow x + a.outflow y := by
  simpa only [outflow, Bool.and_true] using a.weightOf_union hunion hxy Arc.source fun _ => true

theorem inflow_union : a.inflow union = a.inflow x + a.inflow y := by
  simpa only [inflow, Bool.and_true] using a.weightOf_union hunion hxy Arc.target fun _ => true

theorem flow_union_left (z : List String) : a.flow union z = a.flow x z + a.flow y z :=
  a.weightOf_union hunion hxy Arc.source fun arc => a.isMember z arc.target

theorem flow_union_right (z : List String) : a.flow z union = a.flow z x + a.flow z y := by
  simp only [flow, Bool.and_comm (a.isMember z _)]
  exact a.weightOf_union hunion hxy Arc.target fun arc => a.isMember z arc.source

end Union

/-! ### What a community contributes -/

def contribution (m : List String) : Rat :=
  a.flow m m / a.totalWeight - a.outflow m * a.inflow m / a.totalWeight ^ 2

section Disjoint
variable {p : Partition} (hd : p.Pairwise List.Disjoint)
include hd

theorem home_beq {c : Nat} {m : List String} (hm : p[c]? = some m) (i : Nat) :
    (a.home p i == some c) = a.isMember m i := by
  unfold home isMember
  cases a.names[i]? with
  | none => rfl
  | some name =>
    rw [Bool.eq_iff_iff, beq_iff_eq, Option.bind_some,
      Partition.communityOf_eq_some_iff_of_disjoint hd]
    simp [hm]

theorem inside_eq_flow {c : Nat} {m : List String} (hm : p[c]? = some m) :
    a.inside p c = a.flow m m := by
  simp only [inside, flow, a.home_beq hd hm]

theorem leaving_eq_outflow {c : Nat} {m : List String} (hm : p[c]? = some m) :
    a.leaving p c = a.outflow m := by
  simp only [leaving, outflow, a.home_beq hd hm]

theorem entering_eq_inflow {c : Nat} {m : List String} (hm : p[c]? = some m) :
    a.entering p c = a.inflow m := by
  simp only [entering, inflow, a.home_beq hd hm]

/-- Disjoint communities do not take members from each other, so their contributions add up. -/
theorem modularity_eq_sum_contribution (htotal : a.totalWeight ≠ 0) :
    a.modularity p = (p.map a.contribution).sum := by
  rw [modularity_eq_sum, if_neg htotal]
  refine p.sum_range_length fun c m hm => ?_
  rw [a.inside_eq_flow hd hm, a.leaving_eq_outflow hd hm, a.entering_eq_inflow hd hm, contribution]

end Disjoint

theorem contribution_union {union x y : List String}
    (hunion : ∀ name, name ∈ union ↔ name ∈ x ∨ name ∈ y) (hxy : x.Disjoint y) :
    a.contribution union = a.contribution x + a.contribution y +
      ((a.flow x y + a.flow y x) / a.totalWeight -
        (a.outflow x * a.inflow y + a.outflow y * a.inflow x) / a.totalWeight ^ 2) := by
  simp only [contribution, a.flow_union_left hunion hxy, a.flow_union_right hunion hxy,
    a.outflow_union hunion hxy, a.inflow_union hunion hxy]
  ring

/-! ### Merging and splitting -/

/-- No arc runs between members of the two communities, in either direction. -/
def Unlinked (x y : List String) : Prop :=
  ∀ arc ∈ a.arcs, (a.isMember x arc.source → ¬ a.isMember y arc.target) ∧
    (a.isMember y arc.source → ¬ a.isMember x arc.target)

variable {a} {p q : Partition} {x y : List String}

theorem Unlinked.flow_eq_zero (h : a.Unlinked x y) : a.flow x y = 0 ∧ a.flow y x = 0 := by
  constructor
  · exact a.weightOf_eq_zero fun arc harc => by simpa using (h arc harc).1
  · exact a.weightOf_eq_zero fun arc harc => by simpa using (h arc harc).2

section Merges
variable (h : p.Merges x y q) (htotal : a.totalWeight ≠ 0)
include h htotal

theorem modularity_sub_of_merges (hp : p.Pairwise List.Disjoint) :
    a.modularity q - a.modularity p =
      (a.flow x y + a.flow y x) / a.totalWeight -
        (a.outflow x * a.inflow y + a.outflow y * a.inflow x) / a.totalWeight ^ 2 := by
  obtain ⟨hxy, hq⟩ := h.pairwise_disjoint_iff.1 hp
  obtain ⟨union, rest, hunion, hperm, hperm'⟩ := h
  rw [a.modularity_eq_sum_contribution hp htotal, a.modularity_eq_sum_contribution hq htotal,
    (hperm.map _).sum_eq, (hperm'.map _).sum_eq]
  simp only [List.map_cons, List.sum_cons, a.contribution_union hunion hxy]
  ring

/-- Of the change only the product of the degrees is left, which counts for the parts. -/
theorem modularity_le_of_merges (hweight : ∀ arc ∈ a.arcs, 0 ≤ arc.weight)
    (hp : p.Pairwise List.Disjoint) (hlink : a.Unlinked x y) :
    a.modularity q ≤ a.modularity p := by
  have hchange := modularity_sub_of_merges h htotal hp
  have hdegrees : 0 ≤ a.outflow x * a.inflow y + a.outflow y * a.inflow x :=
    add_nonneg (mul_nonneg (weightOf_nonneg hweight _) (weightOf_nonneg hweight _))
      (mul_nonneg (weightOf_nonneg hweight _) (weightOf_nonneg hweight _))
  rw [hlink.flow_eq_zero.1, hlink.flow_eq_zero.2, add_zero, zero_div, zero_sub] at hchange
  have hnonneg := div_nonneg hdegrees (sq_nonneg a.totalWeight)
  linarith

/-- Merging two of several disjoint communities adds the share of the weight that flows between them,
and takes off what their degrees would lead one to expect of it. So without negative weights, to split
a community into two parts that no arc links never makes the partition worse. -/
theorem modularity_merge :
    (p.Pairwise List.Disjoint →
      a.modularity q - a.modularity p =
        (a.flow x y + a.flow y x) / a.totalWeight -
          (a.outflow x * a.inflow y + a.outflow y * a.inflow x) / a.totalWeight ^ 2) ∧
    ((∀ arc ∈ a.arcs, 0 ≤ arc.weight) → q.Pairwise List.Disjoint → x.Disjoint y →
      a.Unlinked x y → a.modularity q ≤ a.modularity p) := by
  refine ⟨modularity_sub_of_merges h htotal, fun hweight hq hxy hlink => ?_⟩
  exact modularity_le_of_merges h htotal hweight (h.pairwise_disjoint_iff.2 ⟨hxy, hq⟩) hlink

end Merges

/-- Three nodes in a row, alone: the last two join at a gain, and the outer two are not linked. -/
theorem modularity_merge_row :
    let a : Adjacency Rat :=
      ⟨["A", "B", "C"], [⟨0, 1, 2⟩, ⟨1, 0, 1⟩, ⟨1, 2, 3⟩, ⟨0, 0, 1⟩], by decide⟩
    let p : Partition := [["A"], ["B"], ["C"]]
    a.totalWeight ≠ 0 ∧ p.Pairwise List.Disjoint ∧ p.Merges ["B"] ["C"] [["A"], ["C", "B"]] ∧
      a.modularity [["A"], ["C", "B"]] - a.modularity p = 3 / 7 - 4 * 3 / 7 ^ 2 ∧
      p.Merges ["A"] ["C"] [["A", "C"], ["B"]] ∧ a.Unlinked ["A"] ["C"] ∧
      a.modularity [["A", "C"], ["B"]] ≤ a.modularity p := by
  intro a p
  have htotal : a.totalWeight ≠ 0 := by decide +kernel
  have hp : p.Pairwise List.Disjoint := by simp [p]
  have hnext : p.Merges ["B"] ["C"] [["A"], ["C", "B"]] :=
    ⟨["C", "B"], [["A"]], by simp [or_comm], by decide, by decide⟩
  have hapart : p.Merges ["A"] ["C"] [["A", "C"], ["B"]] :=
    ⟨["A", "C"], [["B"]], by simp, by decide, by decide⟩
  have hlink : a.Unlinked ["A"] ["C"] := by simp [Unlinked, isMember, a]
  have hgain := (modularity_merge hnext htotal).1 hp
  refine ⟨htotal, hp, hnext, hgain.trans (by decide +kernel), hapart, hlink, ?_⟩
  exact (modularity_merge hapart htotal).2 (by simp [a]) (by simp) (by simp) hlink

end Adjacency

end CallClusters
