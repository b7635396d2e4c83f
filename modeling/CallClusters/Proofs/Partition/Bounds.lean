import CallClusters.Proofs.Partition.Modularity
import Mathlib.Algebra.Order.BigOperators.Group.Finset
import Mathlib.Algebra.Order.BigOperators.Group.List
import Mathlib.Algebra.Order.Field.Rat
import Mathlib.Tactic.Linarith

/-! The range of modularity. Where no weight is negative, the weights that leave a community, enter
it and stay within it are shares of the total that obey a few inequalities. They bound what each
community adds, and together the communities have no more than the whole weight. -/

namespace CallClusters.Adjacency

open Finset

/-! ### Shares of the weight -/

/-- How the shares within a community, out of its members and into them are related. -/
structure Shares (within out into : Rat) : Prop where
  nonneg : 0 ≤ within
  le_out : within ≤ out
  le_into : within ≤ into
  /-- What leaves or enters is no more than everything. -/
  union_le : out + into ≤ within + 1

namespace Shares

variable {within out into : Rat} (h : Shares within out into)
include h

theorem out_nonneg : 0 ≤ out := h.nonneg.trans h.le_out

theorem into_nonneg : 0 ≤ into := h.nonneg.trans h.le_into

/-- A product of shares exceeds the share within by at most a quarter of their sum: where the sum is
at most one, the product does, and elsewhere the product of what they lack does. -/
theorem lower : -(out + into) / 4 ≤ within - out * into := by
  have hwithin := h.nonneg
  have hunion := h.union_le
  have hout := h.out_nonneg
  have hinto := h.into_nonneg
  rcases le_total (out + into) 1 with hsum | hsum
  · have hproduct : 4 * (out * into) ≤ (out + into) ^ 2 := by nlinarith [sq_nonneg (out - into)]
    have hsquare : (out + into) ^ 2 ≤ out + into := by nlinarith
    linarith
  · have hproduct : 4 * ((1 - out) * (1 - into)) ≤ (2 - (out + into)) ^ 2 := by
      nlinarith [sq_nonneg (out - into)]
    have hsquare : (2 - (out + into)) ^ 2 ≤ out + into := by
      have htwo : out + into ≤ 2 := by linarith [h.le_out, h.le_into]
      nlinarith
    linarith

theorem upper : within - out * into ≤ within - within ^ 2 := by
  have hproduct : within * within ≤ out * into :=
    mul_le_mul h.le_out h.le_into h.nonneg h.out_nonneg
  rw [sq]
  exact sub_le_sub_left hproduct within

end Shares

/-! ### Weights that are not negative -/

variable {a : Adjacency Rat} {p : Partition}

theorem weightOf_or_add_and (s t : Arc Rat → Bool) :
    (a.weightOf fun arc => s arc || t arc) + (a.weightOf fun arc => s arc && t arc) =
      a.weightOf s + a.weightOf t := by
  simp only [weightOf_eq_arcSum, arcSum, ← List.sum_map_add]
  congr 1
  apply List.map_congr_left
  intro arc _
  cases s arc <;> cases t arc <;> simp

section
variable (hweight : ∀ arc ∈ a.arcs, 0 ≤ arc.weight)
include hweight

theorem weightOf_mono {s t : Arc Rat → Bool} (h : ∀ arc, s arc → t arc) :
    a.weightOf s ≤ a.weightOf t := by
  rw [weightOf_eq_arcSum, weightOf_eq_arcSum]
  refine List.sum_le_sum fun arc harc => ?_
  have hnonneg := hweight arc harc
  cases hs : s arc with
  | true => simp [h arc hs]
  | false => cases t arc <;> simp [hnonneg]

theorem weightOf_nonneg (s : Arc Rat → Bool) : 0 ≤ a.weightOf s := by
  refine List.sum_nonneg fun w hw => ?_
  obtain ⟨arc, harc, rfl⟩ := List.mem_map.1 hw
  exact hweight arc (List.mem_of_mem_filter harc)

theorem weightOf_le (s : Arc Rat → Bool) : a.weightOf s ≤ a.totalWeight := by
  have htotal : a.totalWeight = a.weightOf fun _ => true := by
    rw [totalWeight_eq_arcSum, weightOf_eq_arcSum]
    rfl
  rw [htotal]
  exact weightOf_mono hweight fun _ _ => rfl

/-- The communities share the arcs among them by any of their ends. -/
theorem sum_weightOf_home_le (p : Partition) (position : Arc Rat → Nat) :
    (∑ c ∈ range p.length, a.weightOf fun arc => a.home p (position arc) == some c) ≤
      a.totalWeight := by
  have hsum : (∑ c ∈ range p.length, a.weightOf fun arc => a.home p (position arc) == some c) =
      a.weightOf fun arc => a.Together p (position arc) (position arc) := by
    simp only [weightOf_eq_arcSum, ← arcSum_finset_sum, beq_iff_eq, decide_eq_true_eq,
      ← sum_home_eq, and_self]
  rw [hsum]
  exact weightOf_le hweight _

variable (htotal : 0 < a.totalWeight)
include htotal

theorem shares (p : Partition) (c : Nat) :
    Shares (a.inside p c / a.totalWeight) (a.leaving p c / a.totalWeight)
      (a.entering p c / a.totalWeight) where
  nonneg := div_nonneg (weightOf_nonneg hweight _) htotal.le
  le_out := by
    have h : a.inside p c ≤ a.leaving p c :=
      weightOf_mono hweight fun _ hinside => (Bool.and_eq_true_iff.1 hinside).1
    exact div_le_div_of_nonneg_right h htotal.le
  le_into := by
    have h : a.inside p c ≤ a.entering p c :=
      weightOf_mono hweight fun _ hinside => (Bool.and_eq_true_iff.1 hinside).2
    exact div_le_div_of_nonneg_right h htotal.le
  union_le := by
    have hunion : _ + a.inside p c = a.leaving p c + a.entering p c := weightOf_or_add_and _ _
    rw [← add_div, ← hunion, add_div, add_comm, add_le_add_iff_left, div_le_one₀ htotal]
    exact weightOf_le hweight _

theorem sum_leaving_le (p : Partition) :
    ∑ c ∈ range p.length, a.leaving p c / a.totalWeight ≤ 1 := by
  rw [← Finset.sum_div, div_le_one₀ htotal]
  exact sum_weightOf_home_le hweight p Arc.source

theorem sum_entering_le (p : Partition) :
    ∑ c ∈ range p.length, a.entering p c / a.totalWeight ≤ 1 := by
  rw [← Finset.sum_div, div_le_one₀ htotal]
  exact sum_weightOf_home_le hweight p Arc.target

omit hweight in
theorem modularity_eq_shares (p : Partition) :
    a.modularity p = ∑ c ∈ range p.length, (a.inside p c / a.totalWeight -
      a.leaving p c / a.totalWeight * (a.entering p c / a.totalWeight)) := by
  simp only [modularity_eq_sum, htotal.ne', if_false, div_mul_div_comm, sq]

/-- Without negative weights modularity lies between minus one half and one. -/
theorem modularity_bounds (p : Partition) : -1 / 2 ≤ a.modularity p ∧ a.modularity p < 1 := by
  have hshares := shares hweight htotal p
  have hleaving := sum_leaving_le hweight htotal p
  have hentering := sum_entering_le hweight htotal p
  rw [modularity_eq_shares htotal]
  generalize a.totalWeight = m at *
  constructor
  · calc -1 / 2
      _ ≤ ∑ c ∈ range p.length, -(a.leaving p c / m + a.entering p c / m) / 4 := by
        rw [← Finset.sum_div, Finset.sum_neg_distrib, Finset.sum_add_distrib]
        linarith
      _ ≤ _ := Finset.sum_le_sum fun c _ => (hshares c).lower
  -- Weight within a community makes its bound strict, and without any no summand is positive.
  · by_cases hinside : ∃ c ∈ range p.length, 0 < a.inside p c / m
    · obtain ⟨c, hc, hpos⟩ := hinside
      calc (∑ c ∈ range p.length, (a.inside p c / m - a.leaving p c / m * (a.entering p c / m)))
        _ ≤ ∑ c ∈ range p.length, (a.inside p c / m - (a.inside p c / m) ^ 2) :=
          Finset.sum_le_sum fun c _ => (hshares c).upper
        _ < ∑ c ∈ range p.length, a.inside p c / m :=
          Finset.sum_lt_sum (fun c _ => sub_le_self _ (sq_nonneg _))
            ⟨c, hc, sub_lt_self _ (pow_pos hpos 2)⟩
        _ ≤ ∑ c ∈ range p.length, a.leaving p c / m :=
          Finset.sum_le_sum fun c _ => (hshares c).le_out
        _ ≤ 1 := hleaving
    · have hnone (c : Nat) (hc : c ∈ range p.length) :
          a.inside p c / m - a.leaving p c / m * (a.entering p c / m) ≤ 0 := by
        have hzero := le_of_not_gt fun hpos => hinside ⟨c, hc, hpos⟩
        have hproduct := mul_nonneg (hshares c).out_nonneg (hshares c).into_nonneg
        linarith
      exact (Finset.sum_nonpos hnone).trans_lt one_pos

end

/-- Two nodes that only call each other, apart: the lowest value there is. -/
theorem modularity_bounds_apart :
    let a : Adjacency Rat := ⟨["A", "B"], [⟨0, 1, 1⟩, ⟨1, 0, 1⟩], by decide⟩
    (∀ arc ∈ a.arcs, 0 ≤ arc.weight) ∧ 0 < a.totalWeight ∧
      a.modularity [["A"], ["B"]] < 1 ∧ a.modularity [["A"], ["B"]] = -1 / 2 := by
  intro a
  have hweight : ∀ arc ∈ a.arcs, 0 ≤ arc.weight := by simp [a]
  have htotal : 0 < a.totalWeight := by decide +kernel
  have hbounds := modularity_bounds hweight htotal [["A"], ["B"]]
  exact ⟨hweight, htotal, hbounds.2, by decide +kernel⟩

end CallClusters.Adjacency
