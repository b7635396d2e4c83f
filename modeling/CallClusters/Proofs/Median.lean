import CallClusters.Graph.Degree
import Mathlib.Algebra.Order.Field.Rat
import Mathlib.Data.List.Sort
import Mathlib.Tactic.Linarith
import Mathlib.Tactic.Ring

/-! Medians by counting. The value at a place of the sorted sample is told by how many values lie
below each bound, so two samples are compared by counts and never by their sorted forms. Over the
rationals a median is the mean of its two middle values, which are one value when the number of
values is odd. -/

namespace CallClusters

/-- The values from the least to the greatest. -/
def ascending (values : List Nat) : List Nat := values.mergeSort fun a b => decide (a ≤ b)

/-- How many values lie below a bound. -/
def countBelow (values : List Nat) (bound : Nat) : Nat := values.countP fun value => decide (value < bound)

/-- Only an empty sample has no median. -/
theorem exists_median {W : Type} [Number W] {values : List Nat} (h : values ≠ []) :
    ∃ m : W, median values = some m := by
  have hlength : (values.mergeSort fun a b => decide (a ≤ b)).length = values.length :=
    List.length_mergeSort _
  have hpos := List.length_pos_iff.2 h
  unfold median
  simp only [hlength]
  rw [List.getElem?_eq_getElem (i := values.length / 2) (by omega),
    List.getElem?_eq_getElem (i := values.length / 2 - 1) (by omega)]
  split
  · exact ⟨_, rfl⟩
  · exact ⟨_, rfl⟩

/-! ### Counts below a bound -/

theorem countBelow_cons (value : Nat) (values : List Nat) (bound : Nat) :
    countBelow (value :: values) bound = countBelow values bound + if value < bound then 1 else 0 := by
  simp [countBelow, List.countP_cons]

theorem countBelow_eq_zero {values : List Nat} {bound : Nat} (h : ∀ value ∈ values, bound ≤ value) :
    countBelow values bound = 0 := by
  rw [countBelow, List.countP_eq_zero]
  intro value hvalue
  have := h value hvalue
  simp only [decide_eq_true_eq]
  omega

theorem countBelow_le_of_forall₂ {xs ys : List Nat} (h : List.Forall₂ (· ≤ ·) xs ys) (bound : Nat) :
    countBelow ys bound ≤ countBelow xs bound := by
  induction h with
  | nil => exact Nat.le_refl _
  | cons hle _ ih =>
    rw [countBelow_cons, countBelow_cons]
    split <;> split <;> omega

/-- What a threshold takes out lies below every greater bound. -/
theorem countBelow_filter_add {t bound : Nat} (h : t < bound) (values : List Nat) :
    countBelow (values.filter fun value => decide (t < value)) bound + countBelow values (t + 1) =
      countBelow values bound := by
  induction values with
  | nil => rfl
  | cons value values ih =>
    simp only [List.filter_cons, decide_eq_true_eq, countBelow_cons]
    split
    · rw [countBelow_cons, if_neg (show ¬ value < t + 1 by omega)]
      omega
    · rw [if_pos (show value < t + 1 by omega), if_pos (show value < bound by omega)]
      omega

theorem length_filter_add_countBelow (t : Nat) (values : List Nat) :
    (values.filter fun value => decide (t < value)).length + countBelow values (t + 1) =
      values.length := by
  induction values with
  | nil => rfl
  | cons value values ih =>
    simp only [List.filter_cons, decide_eq_true_eq, countBelow_cons, List.length_cons]
    split
    · rw [List.length_cons, if_neg (show ¬ value < t + 1 by omega)]
      omega
    · rw [if_pos (show value < t + 1 by omega)]
      omega

/-! ### Places of a sorted sample -/

theorem ascending_perm (values : List Nat) : (ascending values).Perm values :=
  List.mergeSort_perm values _

theorem pairwise_ascending (values : List Nat) : (ascending values).Pairwise (· ≤ ·) :=
  List.pairwise_mergeSort' (· ≤ ·) values

theorem mem_of_ascending {values : List Nat} {k value : Nat} (h : (ascending values)[k]? = some value) :
    value ∈ values :=
  (ascending_perm values).mem_iff.1 (List.mem_of_getElem? h)

/-- In sorted values, those below a bound come first. -/
theorem lt_iff_of_pairwise {values : List Nat} (h : values.Pairwise (· ≤ ·)) {k value : Nat}
    (hk : values[k]? = some value) (bound : Nat) : value < bound ↔ k < countBelow values bound := by
  induction values generalizing k with
  | nil => cases hk
  | cons first values ih =>
    obtain ⟨hfirst, hrest⟩ := List.pairwise_cons.1 h
    have hnone (hbound : bound ≤ first) : countBelow values bound = 0 :=
      countBelow_eq_zero fun other hother => hbound.trans (hfirst other hother)
    rw [countBelow_cons]
    cases k with
    | zero =>
      obtain rfl : first = value := by simpa using hk
      split <;> omega
    | succ k =>
      have hk' : values[k]? = some value := by simpa using hk
      have := hfirst value (List.mem_of_getElem? hk')
      rw [ih hrest hk']
      split <;> omega

theorem ascending_lt_iff {values : List Nat} {k value : Nat} (h : (ascending values)[k]? = some value)
    (bound : Nat) : value < bound ↔ k < countBelow values bound := by
  rw [lt_iff_of_pairwise (pairwise_ascending values) h, countBelow, countBelow,
    (ascending_perm values).countP_eq]

/-- A place holds no more than another if every bound that passes the other's value passes its own. -/
theorem ascending_le_of_countBelow {xs ys : List Nat} {i j x y : Nat} (hx : (ascending xs)[i]? = some x)
    (hy : (ascending ys)[j]? = some y)
    (h : ∀ bound, j < countBelow ys bound → i < countBelow xs bound) : x ≤ y := by
  by_contra hlt
  have hpassed := h x ((ascending_lt_iff hy x).1 (Nat.lt_of_not_le hlt))
  exact Nat.lt_irrefl x ((ascending_lt_iff hx x).2 hpassed)

/-! ### The two middle values -/

/-- The values at the two middle places, and the median between them. -/
structure Middles (values : List Nat) (low high : Nat) (m : Rat) : Prop where
  lower : (ascending values)[(values.length - 1) / 2]? = some low
  upper : (ascending values)[values.length / 2]? = some high
  mean : m = (low + high) / 2

theorem exists_middles {values : List Nat} {m : Rat} (h : median values = some m) :
    ∃ low high, Middles values low high m := by
  have hlength : (ascending values).length = values.length := List.length_mergeSort _
  simp only [median] at h
  rw [← ascending, hlength] at h
  split at h
  · rename_i hodd
    obtain ⟨middle, hmiddle, rfl⟩ := Option.map_eq_some_iff.1 h
    have hplace : (values.length - 1) / 2 = values.length / 2 := by omega
    refine ⟨middle, middle, hplace ▸ hmiddle, hmiddle, ?_⟩
    change (middle : Rat) = _
    ring
  · rename_i heven
    split at h
    · rename_i low high hlow hhigh
      have := (List.getElem?_eq_some_iff.1 hhigh).1
      have hplace : (values.length - 1) / 2 = values.length / 2 - 1 := by omega
      refine ⟨low, high, hplace ▸ hlow, hhigh, ?_⟩
      rw [← Option.some.inj h]
      change ((low + high : Nat) : Rat) / (2 : Nat) = _
      push_cast
      rfl
    · cases h

namespace Middles

variable {values : List Nat} {low high : Nat} {m : Rat} (h : Middles values low high m)
include h

theorem ne_nil : values ≠ [] := by
  rintro rfl
  cases mem_of_ascending h.lower

theorem low_le_high : low ≤ high := by
  apply ascending_le_of_countBelow h.lower h.upper
  intro bound hbound
  omega

theorem low_le : (low : Rat) ≤ m := by
  have : (low : Rat) ≤ high := by exact_mod_cast h.low_le_high
  rw [h.mean]
  linarith

theorem le_high : m ≤ (high : Rat) := by
  have : (low : Rat) ≤ high := by exact_mod_cast h.low_le_high
  rw [h.mean]
  linarith

end Middles

section Compare
variable {xs ys : List Nat} {m m' : Rat} (hm : median xs = some m)
include hm

/-- The median is no greater if, wherever half of the other values lie below a bound, at least as large
a surplus of its own values lies below it. -/
theorem median_le_median (hm' : median ys = some m')
    (h : ∀ bound, ys.length ≤ 2 * countBelow ys bound →
      2 * countBelow ys bound + xs.length ≤ 2 * countBelow xs bound + ys.length) : m ≤ m' := by
  obtain ⟨low, high, hx⟩ := exists_middles hm
  obtain ⟨low', high', hy⟩ := exists_middles hm'
  have hxs := List.length_pos_iff.2 hx.ne_nil
  have hys := List.length_pos_iff.2 hy.ne_nil
  have hlow : low ≤ low' := by
    apply ascending_le_of_countBelow hx.lower hy.lower
    intro bound hbound
    have := h bound (by omega)
    omega
  have hhigh : high ≤ high' := by
    apply ascending_le_of_countBelow hx.upper hy.upper
    intro bound hbound
    have := h bound (by omega)
    omega
  rw [hx.mean, hy.mean]
  gcongr

/-- Values that rise place by place do not lower the median. -/
theorem median_le_of_forall₂ (hm' : median ys = some m') (h : List.Forall₂ (· ≤ ·) xs ys) : m ≤ m' := by
  apply median_le_median hm hm'
  intro bound _
  have := h.length_eq
  have := countBelow_le_of_forall₂ h bound
  omega

/-- A threshold that takes out the values up to it does not lower the median of the others. -/
theorem median_le_of_filter {t : Nat} (hm' : median (xs.filter fun x => decide (t < x)) = some m') :
    m ≤ m' := by
  apply median_le_median hm hm'
  intro bound hhalf
  obtain ⟨_, _, hmiddles⟩ := exists_middles hm'
  have hsome := List.length_pos_iff.2 hmiddles.ne_nil
  by_cases hbound : t < bound
  · have := countBelow_filter_add hbound xs
    have := length_filter_add_countBelow t xs
    omega
  · -- Nothing that is left lies below the bound, though half of it should.
    have hnone : countBelow (xs.filter fun x => decide (t < x)) bound = 0 := by
      apply countBelow_eq_zero
      intro x hx
      have := (List.mem_filter.1 hx).2
      simp only [decide_eq_true_eq] at this
      omega
    omega

theorem median_le {bound : Nat} (h : ∀ x ∈ xs, x ≤ bound) : m ≤ bound := by
  obtain ⟨low, high, hx⟩ := exists_middles hm
  have hhigh : (high : Rat) ≤ bound := by exact_mod_cast h high (mem_of_ascending hx.upper)
  exact hx.le_high.trans hhigh

theorem lt_median {bound : Nat} (h : ∀ x ∈ xs, bound < x) : bound < m := by
  obtain ⟨low, high, hx⟩ := exists_middles hm
  have hlow : (bound : Rat) < low := by exact_mod_cast h low (mem_of_ascending hx.lower)
  exact hlow.trans_le hx.low_le

end Compare

end CallClusters
