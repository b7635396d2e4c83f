import CallClusters.Proofs.Cluster.Components
import CallClusters.Proofs.Partition.Merging

/-! Modularity of communities that no arc leaves. All that flows out of such a community or into it
flows within it, so modularity is one less the squares of the shares that the communities have of the
weight. The connected components are such communities. -/

namespace CallClusters

/-! ### Shares of a whole -/

/-- Numbers that are shares of a whole, and together all of it. -/
structure Apportioned (xs : List Rat) : Prop where
  nonneg : ∀ x ∈ xs, 0 ≤ x
  sum_eq_one : xs.sum = 1

theorem sq_le_sum_sq {xs : List Rat} {x : Rat} (hx : x ∈ xs) : x ^ 2 ≤ (xs.map (· ^ 2)).sum := by
  refine List.single_le_sum (fun y hy => ?_) _ (List.mem_map_of_mem hx)
  obtain ⟨z, -, rfl⟩ := List.mem_map.1 hy
  exact sq_nonneg z

namespace Apportioned

variable {xs : List Rat} (h : Apportioned xs)
include h

theorem le_one {x : Rat} (hx : x ∈ xs) : x ≤ 1 :=
  h.sum_eq_one ▸ List.single_le_sum h.nonneg x hx

theorem sq_le_self {x : Rat} (hx : x ∈ xs) : x ^ 2 ≤ x :=
  pow_le_of_le_one (h.nonneg x hx) (h.le_one hx) two_ne_zero

theorem exists_pos : ∃ x ∈ xs, 0 < x := by
  by_contra hnone
  have hzero : xs.sum = 0 := List.sum_eq_zero fun x hx =>
    le_antisymm (le_of_not_gt fun hpos => hnone ⟨x, hx, hpos⟩) (h.nonneg x hx)
  exact one_ne_zero (h.sum_eq_one.symm.trans hzero)

theorem sum_sq_pos : 0 < (xs.map (· ^ 2)).sum := by
  obtain ⟨x, hx, hpos⟩ := h.exists_pos
  exact (pow_pos hpos 2).trans_le (sq_le_sum_sq hx)

theorem sum_sq_le_one : (xs.map (· ^ 2)).sum ≤ 1 := by
  calc (xs.map (· ^ 2)).sum
    _ ≤ (xs.map id).sum := List.sum_le_sum fun x hx => h.sq_le_self hx
    _ = 1 := by rw [List.map_id, h.sum_eq_one]

/-- A share that is less than the whole loses by being squared. -/
theorem sum_sq_eq_one_iff : (xs.map (· ^ 2)).sum = 1 ↔ 1 ∈ xs := by
  constructor
  · intro hsum
    by_contra hone
    obtain ⟨x, hx, hpos⟩ := h.exists_pos
    have hless : x < 1 := (h.le_one hx).lt_of_ne fun heq => hone (heq ▸ hx)
    have hlt : (xs.map (· ^ 2)).sum < (xs.map id).sum :=
      List.sum_lt_sum _ _ (fun y hy => h.sq_le_self hy)
        ⟨x, hx, pow_lt_self_of_lt_one₀ hpos hless one_lt_two⟩
    rw [List.map_id, h.sum_eq_one] at hlt
    exact hlt.ne hsum
  · intro hone
    have hle := sq_le_sum_sq hone
    rw [one_pow] at hle
    exact le_antisymm h.sum_sq_le_one hle

end Apportioned

namespace Adjacency

variable {a : Adjacency Rat} {p : Partition}

/-! ### Communities that no arc leaves -/

/-- Every arc runs within some community. -/
def Encloses (a : Adjacency Rat) (p : Partition) : Prop :=
  ∀ arc ∈ a.arcs, ∃ m ∈ p, a.isMember m arc.source ∧ a.isMember m arc.target

/-- The share of the weight that flows within a community. -/
def share (a : Adjacency Rat) (m : List String) : Rat := a.flow m m / a.totalWeight

theorem weightOf_congr {s t : Arc Rat → Bool} (h : ∀ arc ∈ a.arcs, s arc = t arc) :
    a.weightOf s = a.weightOf t := by
  rw [weightOf, List.filter_congr h, weightOf]

section Enclosed
variable (hd : p.Pairwise List.Disjoint) (hin : a.Encloses p)
include hd hin

/-- An arc with one end in a community has both of them there. -/
theorem isMember_source_iff_target {m : List String} (hm : m ∈ p) {arc : Arc Rat}
    (harc : arc ∈ a.arcs) : a.isMember m arc.source ↔ a.isMember m arc.target := by
  obtain ⟨k, hk, hsource, htarget⟩ := hin arc harc
  by_cases hmk : k = m
  · rw [← hmk]
    exact iff_of_true hsource htarget
  · have hsymm : Std.Symm (@List.Disjoint String) := ⟨fun _ _ hxy => hxy.symm⟩
    have hdisjoint := hd.forall hk hm hmk
    exact iff_of_false (a.not_isMember_of_disjoint hdisjoint hsource)
      (a.not_isMember_of_disjoint hdisjoint htarget)

theorem outflow_eq_flow {m : List String} (hm : m ∈ p) : a.outflow m = a.flow m m := by
  refine weightOf_congr fun arc harc => ?_
  rw [Bool.eq_iff_iff, Bool.and_eq_true]
  exact (and_iff_left_of_imp (isMember_source_iff_target hd hin hm harc).1).symm

theorem inflow_eq_flow {m : List String} (hm : m ∈ p) : a.inflow m = a.flow m m := by
  refine weightOf_congr fun arc harc => ?_
  rw [Bool.eq_iff_iff, Bool.and_eq_true]
  exact (and_iff_right_of_imp (isMember_source_iff_target hd hin hm harc).2).symm

theorem together_of_encloses {arc : Arc Rat} (harc : arc ∈ a.arcs) :
    a.Together p arc.source arc.target := by
  obtain ⟨m, hm, hsource, htarget⟩ := hin arc harc
  obtain ⟨c, hc⟩ := List.mem_iff_getElem?.1 hm
  rw [← a.home_beq hd hc, beq_iff_eq] at hsource htarget
  exact ⟨c, hsource, htarget⟩

/-- All of the weight flows within the communities. -/
theorem sum_flow : (p.map fun m => a.flow m m).sum = a.totalWeight := by
  calc (p.map fun m => a.flow m m).sum
    _ = ∑ c ∈ Finset.range p.length, a.inside p c :=
      (p.sum_range_length fun c m hm => a.inside_eq_flow hd hm).symm
    _ = a.togetherWeight p := a.sum_inside p
    _ = a.arcSum Arc.weight := arcSum_congr fun _ harc => if_pos (together_of_encloses hd hin harc)
    _ = a.totalWeight := a.totalWeight_eq_arcSum.symm

section Total
variable (htotal : a.totalWeight ≠ 0)
include htotal

theorem sum_share : (p.map a.share).sum = 1 := by
  have hshare : p.map a.share = p.map fun m => a.flow m m * a.totalWeight⁻¹ := rfl
  rw [hshare, List.sum_map_mul_right, sum_flow hd hin, mul_inv_cancel₀ htotal]

theorem modularity_eq_one_sub :
    a.modularity p = 1 - (p.map fun m => a.share m ^ 2).sum := by
  have hcontribution (m : List String) (hm : m ∈ p) :
      a.contribution m + a.share m ^ 2 = a.share m := by
    rw [contribution, outflow_eq_flow hd hin hm, inflow_eq_flow hd hin hm, share, div_pow,
      sq (a.flow m m), sub_add_cancel]
  rw [a.modularity_eq_sum_contribution hd htotal, eq_sub_iff_add_eq, ← List.sum_map_add,
    List.map_congr_left hcontribution, sum_share hd hin htotal]

end Total

end Enclosed

/-! ### Without negative weights -/

section Nonnegative
variable (hweight : ∀ arc ∈ a.arcs, 0 ≤ arc.weight)
include hweight

/-- Some of the arcs have all the weight exactly when they are all that have any. -/
theorem weightOf_eq_totalWeight_iff (s : Arc Rat → Bool) :
    a.weightOf s = a.totalWeight ↔ ∀ arc ∈ a.arcs, 0 < arc.weight → s arc := by
  rw [weightOf_eq_arcSum, totalWeight_eq_arcSum]
  constructor
  · intro hall arc harc hpos
    by_contra hout
    have hlt : (a.arcSum fun arc => if s arc then arc.weight else 0) < a.arcSum Arc.weight := by
      refine List.sum_lt_sum _ _ (fun other hother => ?_) ⟨arc, harc, by rwa [if_neg hout]⟩
      split
      · exact le_rfl
      · exact hweight other hother
    exact hlt.ne hall
  · intro hall
    refine arcSum_congr fun arc harc => ?_
    split
    · rfl
    · rename_i hout
      exact le_antisymm (hweight arc harc) (le_of_not_gt fun hpos => hout (hall arc harc hpos))

theorem totalWeight_nonneg : 0 ≤ a.totalWeight := by
  exact (weightOf_nonneg hweight fun _ => true).trans (weightOf_le hweight _)

variable (htotal : a.totalWeight ≠ 0)
include htotal

theorem share_eq_one_iff (m : List String) :
    a.share m = 1 ↔ ∀ arc ∈ a.arcs, 0 < arc.weight →
      a.isMember m arc.source ∧ a.isMember m arc.target := by
  rw [share, div_eq_one_iff_eq htotal, flow, weightOf_eq_totalWeight_iff hweight]
  simp only [Bool.and_eq_true]

theorem apportioned_shares (hd : p.Pairwise List.Disjoint) (hin : a.Encloses p) :
    Apportioned (p.map a.share) where
  nonneg := List.forall_mem_map.2 fun _ _ =>
    div_nonneg (weightOf_nonneg hweight _) (totalWeight_nonneg hweight)
  sum_eq_one := sum_share hd hin htotal

end Nonnegative

/-! ### The connected components -/

theorem pairwise_disjoint_components (h : a.names.Nodup) :
    a.components.Pairwise List.Disjoint :=
  (List.nodup_flatten.1 (a.flatten_components_perm.nodup_iff.2 h)).2

/-- The ends of an arc are connected. -/
theorem encloses_components (h : a.names.Nodup) : a.Encloses a.components := by
  intro arc harc
  obtain ⟨hsource, htarget⟩ := a.bounded arc harc
  have htouching : a.Touching ⟨arc.source, hsource⟩ ⟨arc.target, htarget⟩ :=
    ⟨arc, harc, .inl ⟨rfl, rfl⟩⟩
  obtain ⟨group, hgroup, hs, ht⟩ := (mem_component_both h _ _).2 (.single htouching)
  exact ⟨group, hgroup, (a.isMember_of_getElem? (List.getElem?_eq_getElem hsource)).2 hs,
    (a.isMember_of_getElem? (List.getElem?_eq_getElem htarget)).2 ht⟩

end Adjacency

namespace Graph

open Adjacency

/-- Modularity of the components is one less the squares of their shares of the weight. So without
negative weights it lies between zero and one, and is zero only where one component has all that is
positive. -/
theorem modularity_components (g : Graph Rat) (htotal : g.adjacency.totalWeight ≠ 0) :
    ∃ groups, Partitioner.connectedComponents.partition g.adjacency = ⟨[], .ok groups⟩ ∧
      g.adjacency.modularity groups =
        1 - (groups.map fun m =>
          (g.adjacency.flow m m / g.adjacency.totalWeight) ^ 2).sum ∧
      ((∀ arc ∈ g.adjacency.arcs, 0 ≤ arc.weight) →
        0 ≤ g.adjacency.modularity groups ∧ g.adjacency.modularity groups < 1 ∧
        (g.adjacency.modularity groups = 0 ↔
          ∃ m ∈ groups, ∀ arc ∈ g.adjacency.arcs, 0 < arc.weight →
            g.adjacency.isMember m arc.source ∧ g.adjacency.isMember m arc.target)) := by
  have hnames : g.adjacency.names.Nodup := g.nodup_names
  have hd := pairwise_disjoint_components hnames
  have hin := encloses_components hnames
  have hvalue := modularity_eq_one_sub hd hin htotal
  refine ⟨g.adjacency.components, rfl, hvalue, fun hweight => ?_⟩
  have hshares := apportioned_shares hweight htotal hd hin
  have hsquares : (g.adjacency.components.map fun m => g.adjacency.share m ^ 2) =
      (g.adjacency.components.map g.adjacency.share).map (· ^ 2) := by
    rw [List.map_map]
    rfl
  rw [hvalue, hsquares]
  refine ⟨sub_nonneg.2 hshares.sum_sq_le_one, sub_lt_self 1 hshares.sum_sq_pos, ?_⟩
  rw [sub_eq_zero, eq_comm, hshares.sum_sq_eq_one_iff, List.mem_map]
  simp only [share_eq_one_iff hweight htotal]

/-- Calls both ways, a loop, a node alone, and a dangling edge, whose weight does not count. -/
theorem modularity_components_dangling :
    let call (s t : String) (w : Rat) : Edge Rat := ⟨s, t, .blank, .blank, w⟩
    let g : Graph Rat := ⟨["A", "B", "C", "D", "A"],
      [call "B" "A" 2, call "A" "B" 1, call "C" "C" 5, call "D" "Z" (-4)]⟩
    g.adjacency.totalWeight ≠ 0 ∧ (∀ arc ∈ g.adjacency.arcs, 0 ≤ arc.weight) ∧
      Partitioner.connectedComponents.partition g.adjacency =
        ⟨[], .ok [["A", "B"], ["C"], ["D"]]⟩ ∧
      g.adjacency.modularity [["A", "B"], ["C"], ["D"]] = 1 - ((3 / 8) ^ 2 + (5 / 8) ^ 2) ∧
      0 ≤ g.adjacency.modularity [["A", "B"], ["C"], ["D"]] ∧
      g.adjacency.modularity [["A", "B"], ["C"], ["D"]] < 1 := by
  intro call g
  have htotal : g.adjacency.totalWeight ≠ 0 := by decide +kernel
  have hweight : ∀ arc ∈ g.adjacency.arcs, 0 ≤ arc.weight := by decide +kernel
  have hgroups : g.adjacency.components = [["A", "B"], ["C"], ["D"]] := by decide +kernel
  obtain ⟨groups, hpartition, hvalue, hbounds⟩ := modularity_components g htotal
  have heq : groups = [["A", "B"], ["C"], ["D"]] := by
    cases hpartition
    exact hgroups
  subst heq
  obtain ⟨hzero, hone, -⟩ := hbounds hweight
  exact ⟨htotal, hweight, hpartition, hvalue.trans (by decide +kernel), hzero, hone⟩

end Graph

end CallClusters
