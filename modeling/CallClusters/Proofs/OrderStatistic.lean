import CallClusters.Proofs.Graph.Degree
import CallClusters.Proofs.Median

/-! The median as an order statistic. Of the two middle values, the lower one tells how many values
are at most the median, and the upper one how many are at least the median, each of them by its place
in the sorted sample. Every sample but the empty one has a median, which does not depend on the order
of the values and does not fall when some of them rise. -/

namespace CallClusters

/-- The middle one of sorted values, or the mean of the middle two if their number is even. -/
inductive IsMiddle (sorted : List Nat) : Rat → Prop
  | odd {k middle : Nat} :
      sorted.length = 2 * k + 1 → sorted[k]? = some middle → IsMiddle sorted middle
  | even {k low high : Nat} : sorted.length = 2 * k + 2 → sorted[k]? = some low →
      sorted[k + 1]? = some high → IsMiddle sorted ((low + high) / 2)

/-- Half of the values or more lie on either side of `m`, which is the middle of the sorted values. -/
structure IsMedian (values : List Nat) (m : Rat) : Prop where
  half_le : values.length ≤ 2 * values.countP fun value : Nat => decide ((value : Rat) ≤ m)
  half_ge : values.length ≤ 2 * values.countP fun value : Nat => decide (m ≤ (value : Rat))
  min_le : ∃ least, values.min? = some least ∧ (least : Rat) ≤ m
  le_max : ∃ greatest, values.max? = some greatest ∧ m ≤ (greatest : Rat)
  middle : ∀ sorted, sorted.Perm values → sorted.Pairwise (· ≤ ·) → IsMiddle sorted m

/-- A list has only one sorted form. -/
theorem eq_ascending {values sorted : List Nat} (hperm : sorted.Perm values)
    (hsorted : sorted.Pairwise (· ≤ ·)) : sorted = ascending values :=
  (hperm.trans (ascending_perm values).symm).eq_of_pairwise' hsorted (pairwise_ascending values)

namespace Middles

variable {values : List Nat} {low high : Nat} {m : Rat} (h : Middles values low high m)
include h

theorem half_le : values.length ≤ 2 * values.countP fun value : Nat => decide ((value : Rat) ≤ m) := by
  have hplace : (values.length - 1) / 2 < countBelow values (low + 1) :=
    (ascending_lt_iff h.lower _).1 (Nat.lt_succ_self low)
  have hcount : countBelow values (low + 1) ≤
      values.countP fun value : Nat => decide ((value : Rat) ≤ m) := by
    apply List.countP_mono_left
    intro value _ hvalue
    simp only [decide_eq_true_eq] at hvalue ⊢
    have hlow : (value : Rat) ≤ low := by exact_mod_cast Nat.le_of_lt_succ hvalue
    exact hlow.trans h.low_le
  omega

theorem half_ge : values.length ≤ 2 * values.countP fun value : Nat => decide (m ≤ (value : Rat)) := by
  have hplace : countBelow values high ≤ values.length / 2 := by
    by_contra hlt
    exact Nat.lt_irrefl high ((ascending_lt_iff h.upper high).2 (Nat.lt_of_not_le hlt))
  have hlength := List.length_eq_countP_add_countP (fun value => decide (value < high)) (l := values)
  rw [← countBelow] at hlength
  have hcount : (values.countP fun value => ¬ decide (value < high)) ≤
      values.countP fun value : Nat => decide (m ≤ (value : Rat)) := by
    apply List.countP_mono_left
    intro value _ hvalue
    simp only [decide_eq_true_eq] at hvalue ⊢
    have hhigh : (high : Rat) ≤ value := by exact_mod_cast Nat.le_of_not_lt hvalue
    exact h.le_high.trans hhigh
  omega

theorem isMiddle : IsMiddle (ascending values) m := by
  have hlength : (ascending values).length = values.length := (ascending_perm values).length_eq
  have hpos := List.length_pos_iff.2 h.ne_nil
  have hlower := h.lower
  have hupper := h.upper
  rcases Nat.even_or_odd' values.length with ⟨k, hk | hk⟩
  · obtain ⟨k, rfl⟩ := Nat.exists_eq_add_one_of_ne_zero (show k ≠ 0 by omega)
    rw [show (values.length - 1) / 2 = k by omega] at hlower
    rw [show values.length / 2 = k + 1 by omega] at hupper
    rw [h.mean]
    exact .even (hlength.trans hk) hlower hupper
  · rw [show (values.length - 1) / 2 = k by omega] at hlower
    rw [show values.length / 2 = k by omega, hlower] at hupper
    obtain rfl : low = high := Option.some.inj hupper
    rw [h.mean, add_self_div_two]
    exact .odd (hlength.trans hk) hlower

theorem isMedian : IsMedian values m where
  half_le := h.half_le
  half_ge := h.half_ge
  min_le := by
    obtain ⟨least, hleast⟩ := Option.isSome_iff_exists.1 (List.isSome_min?_iff.2 h.ne_nil)
    have hlow : least ≤ low := (List.min?_eq_some_iff.1 hleast).2 low (mem_of_ascending h.lower)
    have hlow' : (least : Rat) ≤ low := by exact_mod_cast hlow
    exact ⟨least, hleast, hlow'.trans h.low_le⟩
  le_max := by
    obtain ⟨greatest, hgreatest⟩ := Option.isSome_iff_exists.1 (List.isSome_max?_iff.2 h.ne_nil)
    have hhigh : high ≤ greatest :=
      (List.max?_eq_some_iff.1 hgreatest).2 high (mem_of_ascending h.upper)
    have hhigh' : (high : Rat) ≤ greatest := by exact_mod_cast hhigh
    exact ⟨greatest, hgreatest, h.le_high.trans hhigh'⟩
  middle sorted hperm hsorted := by
    rw [eq_ascending hperm hsorted]
    exact h.isMiddle

end Middles

/-- A sample with a value in it has a median, with half of the values or more on either side. It is the
median of the values in any other order, and no greater than the median of values that have risen. -/
theorem exists_isMedian {values : List Nat} (h : values ≠ []) :
    ∃ m : Rat, median values = some m ∧ IsMedian values m ∧
      (∀ others, others.Perm values → median others = some m) ∧
      ∀ raised, List.Forall₂ (· ≤ ·) values raised → ∃ m', median raised = some m' ∧ m ≤ m' := by
  obtain ⟨m, hm⟩ := exists_median (W := Rat) h
  obtain ⟨low, high, hmiddles⟩ := exists_middles hm
  refine ⟨m, hm, hmiddles.isMedian, fun others hothers => ?_, fun raised hraised => ?_⟩
  · rw [median_perm hothers, hm]
  · have hne : raised ≠ [] := by
      rintro rfl
      exact h (List.forall₂_nil_right_iff.1 hraised)
    obtain ⟨m', hm'⟩ := exists_median (W := Rat) hne
    exact ⟨m', hm', median_le_of_forall₂ hm hm' hraised⟩

/-- Of four values the second and the third in order count. The last one rises past the median. -/
theorem exists_isMedian_four :
    let values := [7, 1, 4, 2]
    values ≠ [] ∧ ∃ m : Rat, median values = some m ∧ m = 3 ∧ IsMedian values m ∧
      median [1, 2, 4, 7] = some m ∧ ∃ m', median [7, 1, 4, 6] = some m' ∧ m ≤ m' := by
  intro values
  have hne : values ≠ [] := by decide
  obtain ⟨m, hm, hmedian, hperm, hraised⟩ := exists_isMedian hne
  have hthree : m = 3 := by
    cases hmedian.middle [1, 2, 4, 7] (by decide) (by decide) with
    | odd hlength =>
      simp only [List.length_cons, List.length_nil] at hlength
      omega
    | @even k low high hlength hlow hhigh =>
      simp only [List.length_cons, List.length_nil] at hlength
      obtain rfl : k = 1 := by omega
      obtain rfl : 2 = low := by simpa using hlow
      obtain rfl : 4 = high := by simpa using hhigh
      norm_num
  exact ⟨hne, m, hm, hthree, hmedian, hperm _ (by decide), hraised _ (by simp [values])⟩

end CallClusters
