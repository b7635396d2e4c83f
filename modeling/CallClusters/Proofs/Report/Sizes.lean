import CallClusters.Proofs.Median
import CallClusters.Proofs.Number
import CallClusters.Proofs.Report.Counts
import CallClusters.Proofs.Report.Faults
import Mathlib.Algebra.Order.BigOperators.Group.List

/-! Summaries of cluster sizes. A summary gives the length, the average and the median of one sample,
and its threshold selects the sample. A higher threshold takes the smallest sizes out of the sample,
so that the count falls while average and median rise. -/

namespace CallClusters

/-! ### Averages -/

section Average
variable {sample : List Nat} {t : Nat}

theorem total_filter_add (keep : Nat → Bool) (sample : List Nat) :
    total (sample.filter keep) + total (sample.filter fun n => !keep n) = total sample := by
  rw [← total_perm (List.filter_append_perm keep sample), total_eq_sum, total_eq_sum, total_eq_sum,
    List.sum_append]

theorem length_filter_add (keep : Nat → Bool) (sample : List Nat) :
    (sample.filter keep).length + (sample.filter fun n => !keep n).length = sample.length := by
  rw [← List.length_append, (List.filter_append_perm keep sample).length_eq]

theorem length_mul_le_total (h : ∀ n ∈ sample, t ≤ n) : sample.length * t ≤ total sample := by
  rw [total_eq_sum]
  exact List.card_nsmul_le_sum sample t h

theorem total_le_length_mul (h : ∀ n ∈ sample, n ≤ t) : total sample ≤ sample.length * t := by
  rw [total_eq_sum]
  exact List.sum_le_card_nsmul sample t h

/-- What a threshold keeps is no smaller on average than everything. -/
theorem total_mul_length_le (t : Nat) (sample : List Nat) :
    total sample * (sample.filter fun n => decide (t < n)).length ≤
      total (sample.filter fun n => decide (t < n)) * sample.length := by
  let keep n := decide (t < n)
  let kept := sample.filter keep
  let rest := sample.filter fun n => !keep n
  have hkept : kept.length * t ≤ total kept := by
    apply length_mul_le_total
    intro n hn
    exact Nat.le_of_lt (of_decide_eq_true (List.mem_filter.1 hn).2)
  have hrest : total rest ≤ rest.length * t := by
    apply total_le_length_mul
    intro n hn
    simpa [keep] using (List.mem_filter.1 hn).2
  -- The threshold lies between the two averages, which gives the comparison without a division.
  have htotal : total kept + total rest = total sample := total_filter_add keep sample
  have hlength : kept.length + rest.length = sample.length := length_filter_add keep sample
  have hcross : total rest * kept.length ≤ total kept * rest.length :=
    calc total rest * kept.length ≤ rest.length * t * kept.length := Nat.mul_le_mul_right _ hrest
      _ = kept.length * t * rest.length := by ring
      _ ≤ total kept * rest.length := Nat.mul_le_mul_right _ hkept
  calc total sample * kept.length = total kept * kept.length + total rest * kept.length := by
        rw [← htotal, Nat.add_mul]
    _ ≤ total kept * kept.length + total kept * rest.length := Nat.add_le_add_left hcross _
    _ = total kept * sample.length := by rw [← hlength, Nat.mul_add]

/-- The exact average. -/
def exactAverage (sample : List Nat) : Rat := total sample / sample.length

theorem exactAverage_le_of_filter (hkept : sample.filter (fun n => decide (t < n)) ≠ []) :
    exactAverage sample ≤ exactAverage (sample.filter fun n => decide (t < n)) := by
  have hpos := List.length_pos_iff.2 hkept
  have hle := List.length_filter_le (fun n => decide (t < n)) sample
  have hall : 0 < sample.length := hpos.trans_le hle
  rw [exactAverage, exactAverage, div_le_div_iff₀ (by exact_mod_cast hall) (by exact_mod_cast hpos)]
  exact_mod_cast total_mul_length_le t sample

theorem lt_exactAverage (hsample : sample ≠ []) (h : ∀ n ∈ sample, t < n) :
    t < exactAverage sample := by
  have hpos := List.length_pos_iff.2 hsample
  have hle : sample.length * (t + 1) ≤ total sample := length_mul_le_total h
  rw [exactAverage, lt_div_iff₀ (by exact_mod_cast hpos)]
  have hlt : t * sample.length < total sample := by
    rw [Nat.mul_add, Nat.mul_one, Nat.mul_comm] at hle
    omega
  exact_mod_cast hlt

theorem exactAverage_le (hsample : sample ≠ []) (h : ∀ n ∈ sample, n ≤ t) :
    exactAverage sample ≤ t := by
  have hpos := List.length_pos_iff.2 hsample
  rw [exactAverage, div_le_iff₀ (by exact_mod_cast hpos), mul_comm]
  exact_mod_cast total_le_length_mul h

end Average

/-! ### What a summary says of its sample -/

section Summary
variable {W : Type} [Number W]

/-- The sample is not empty, and count, average and median are those of the sample. -/
structure SizeSummary.Summarises (s : SizeSummary W) (sample : List Nat) : Prop where
  divisor : sample.length ≠ 0
  count : s.clusterCount = sample.length
  average : s.averageSize = Number.ofNat (total sample) / Number.ofNat sample.length
  median : median sample = some s.medianSize

namespace Clustering

variable {c : Clustering W} {threshold : Option Nat}

theorem averageSize_eq_ok_iff {a : W} :
    c.averageSize threshold = .ok a ↔ (c.sizes threshold).length ≠ 0 ∧
      a = Number.ofNat (total (c.sizes threshold)) / Number.ofNat (c.sizes threshold).length := by
  rw [ne_eq, List.length_eq_zero_iff, ← List.isEmpty_iff]
  simp only [averageSize]
  split
  · rename_i hempty
    simp [hempty]
  · rename_i hempty
    simp [hempty, eq_comm]

theorem medianSize_eq_ok_iff {m : W} :
    c.medianSize threshold = .ok m ↔ median (c.sizes threshold) = some m := by
  rw [medianSize]
  cases (median (c.sizes threshold) : Option W) <;> simp

omit [Number W] in
theorem sizes_none (c : Clustering W) : c.sizes none = c.clusters.map Cluster.size :=
  List.filter_eq_self.2 fun _ _ => rfl

omit [Number W] in
/-- The clusters that are counted are those whose sizes are collected. -/
theorem length_sizes (c : Clustering W) (threshold : Option Nat) :
    (match threshold with
      | some t => c.countLarger t
      | none => c.clusters.length) = (c.sizes threshold).length := by
  cases threshold with
  | none => rw [sizes_none, List.length_map]
  | some t => exact c.countLarger_eq t

theorem sizeSummary_eq_ok_iff {s : SizeSummary W} :
    c.sizeSummary threshold = .ok s ↔ s.threshold = threshold ∧ s.Summarises (c.sizes threshold) := by
  simp only [sizeSummary, Fault.bind_eq_ok_iff, averageSize_eq_ok_iff, medianSize_eq_ok_iff]
  constructor
  · rintro ⟨a, ⟨hdivisor, ha⟩, m, hm, hs⟩
    cases hs
    exact ⟨rfl, hdivisor, c.length_sizes threshold, ha, hm⟩
  · rintro ⟨rfl, h⟩
    have hcount := (c.length_sizes s.threshold).trans h.count.symm
    refine ⟨_, ⟨h.divisor, h.average⟩, _, h.median, congrArg Except.ok ?_⟩
    cases s
    rw [SizeSummary.mk.injEq]
    exact ⟨rfl, hcount, rfl, rfl⟩

omit [Number W] in
theorem sizes_some_eq (c : Clustering W) (t : Nat) :
    c.sizes (some t) = (c.sizes none).filter fun n => decide (t < n) := by
  rw [sizes_none]
  rfl

omit [Number W] in
/-- A higher threshold selects from what a lower one has selected. -/
theorem sizes_some_of_le (c : Clustering W) {t t' : Nat} (h : t ≤ t') :
    c.sizes (some t') = (c.sizes (some t)).filter fun n => decide (t' < n) := by
  rw [sizes_some_eq, sizes_some_eq, List.filter_filter]
  apply List.filter_congr
  intro n _
  rw [Bool.eq_iff_iff]
  simp only [Bool.and_eq_true, decide_eq_true_eq]
  omega

/-- Some cluster has more nodes than the threshold. -/
def Exceeds (c : Clustering W) (t : Nat) : Prop := ∃ k ∈ c.clusters, t < k.size

omit [Number W] in
theorem sizes_some_ne_nil_iff {t : Nat} : c.sizes (some t) ≠ [] ↔ c.Exceeds t := by
  simp [sizes_some_eq, sizes_none, Exceeds]

/-- A sample that is not empty has a summary. -/
theorem exists_sizeSummary (h : c.sizes threshold ≠ []) :
    ∃ s : SizeSummary W, c.sizeSummary threshold = .ok s ∧ s.Summarises (c.sizes threshold) := by
  have hfault := c.of?_sizeSummary (W := W) threshold
  rw [Fault.ofSample, List.isEmpty_eq_false_iff.2 h, if_neg Bool.false_ne_true] at hfault
  obtain ⟨s, hs⟩ := Fault.of?_eq_none_iff.1 hfault
  exact ⟨s, hs, (sizeSummary_eq_ok_iff.1 hs).2⟩

end Clustering

end Summary

/-! ### Exact summaries under a rising threshold -/

namespace SizeSummary

/-- From one summary to another the count does not rise, and average and median do not fall. -/
structure Rises (s s' : SizeSummary Rat) : Prop where
  count : s'.clusterCount ≤ s.clusterCount
  average : s.averageSize ≤ s'.averageSize
  median : s.medianSize ≤ s'.medianSize

variable {s s' : SizeSummary Rat} {sample : List Nat} {t : Nat}

theorem Summarises.ne_nil (h : s.Summarises sample) : sample ≠ [] :=
  fun hnil => h.divisor (List.length_eq_zero_iff.2 hnil)

theorem Summarises.averageSize_eq (h : s.Summarises sample) : s.averageSize = exactAverage sample :=
  h.average

theorem Summarises.rises (h : s.Summarises sample)
    (h' : s'.Summarises (sample.filter fun n => decide (t < n))) : s.Rises s' where
  count := by
    rw [h.count, h'.count]
    exact List.length_filter_le _ _
  average := by
    rw [h.averageSize_eq, h'.averageSize_eq]
    exact exactAverage_le_of_filter h'.ne_nil
  median := median_le_of_filter h.median h'.median

end SizeSummary

namespace Clustering

/-- The higher of two thresholds leaves fewer clusters of a larger average and median size, and either
of them does so against all clusters. Average and median lie above the threshold, and the largest
cluster has at least as many nodes. -/
theorem sizeSummary_rises {c : Clustering Rat} {t t' : Nat} (ht : t ≤ t') (h : c.Exceeds t') :
    ∃ all s s', c.sizeSummary none = .ok all ∧ c.sizeSummary (some t) = .ok s ∧
      c.sizeSummary (some t') = .ok s' ∧ all.Rises s ∧ s.Rises s' ∧
      s.Summarises (c.sizes (some t)) ∧ t < s.averageSize ∧ t < s.medianSize ∧
      ∃ largest, (c.clusters.map Cluster.size).max? = some largest ∧
        s.averageSize ≤ largest ∧ s.medianSize ≤ largest := by
  have hexceeds : c.Exceeds t := h.imp fun k hk => ⟨hk.1, ht.trans_lt hk.2⟩
  have hkept := sizes_some_ne_nil_iff.2 hexceeds
  have hsizes : c.sizes none ≠ [] := by
    intro hnil
    exact hkept (by rw [sizes_some_eq, hnil, List.filter_nil])
  obtain ⟨all, hall, hallSizes⟩ := exists_sizeSummary hsizes
  obtain ⟨s, hs, hsSizes⟩ := exists_sizeSummary hkept
  obtain ⟨s', hs', hsSizes'⟩ := exists_sizeSummary (sizes_some_ne_nil_iff.2 h)
  have hlow : ∀ n ∈ c.sizes (some t), t < n := by
    intro n hn
    rw [sizes_some_eq] at hn
    exact of_decide_eq_true (List.mem_filter.1 hn).2
  obtain ⟨largest, hlargest⟩ := Option.isSome_iff_exists.1 (List.isSome_max?_iff.2 hsizes)
  have hhigh : ∀ n ∈ c.sizes (some t), n ≤ largest := by
    intro n hn
    rw [sizes_some_eq] at hn
    exact (List.max?_eq_some_iff.1 hlargest).2 n (List.mem_filter.1 hn).1
  refine ⟨all, s, s', hall, hs, hs', hallSizes.rises (sizes_some_eq c t ▸ hsSizes),
    hsSizes.rises (sizes_some_of_le c ht ▸ hsSizes'), hsSizes, ?_, lt_median hsSizes.median hlow,
    largest, sizes_none c ▸ hlargest, ?_, median_le hsSizes.median hhigh⟩
  · rw [hsSizes.averageSize_eq]
    exact lt_exactAverage hkept hlow
  · rw [hsSizes.averageSize_eq]
    exact exactAverage_le hkept hhigh

/-- The higher threshold leaves two sizes of four, so that the middle moves between them. -/
theorem sizeSummary_rises_even :
    let sized (n : Nat) : Cluster Rat := ⟨1, List.replicate n "A", []⟩
    let c : Clustering Rat := ⟨[sized 1, sized 8, sized 3, sized 4], []⟩
    2 ≤ 3 ∧ c.Exceeds 3 ∧ ∃ all s s', c.sizeSummary none = .ok all ∧ c.sizeSummary (some 2) = .ok s ∧
      c.sizeSummary (some 3) = .ok s' ∧ all.Rises s ∧ s.Rises s' ∧ s.clusterCount = 3 ∧
      s.averageSize = 5 ∧ 2 < s.medianSize ∧ s.medianSize ≤ 8 := by
  intro sized c
  have hexceeds : c.Exceeds 3 := ⟨sized 4, by simp [c], by decide⟩
  obtain ⟨all, s, s', hall, hs, hs', hrises, hrises', hsizes, -, hlow, largest, hlargest, -, hhigh⟩ :=
    sizeSummary_rises (by decide : 2 ≤ 3) hexceeds
  have hmax : largest = 8 := Option.some.inj (hlargest.symm.trans (by decide))
  have haverage : s.averageSize = 5 := hsizes.averageSize_eq.trans (by decide +kernel)
  exact ⟨by decide, hexceeds, all, s, s', hall, hs, hs', hrises, hrises', hsizes.count, haverage,
    by exact_mod_cast hlow, by exact_mod_cast hmax ▸ hhigh⟩

end Clustering

end CallClusters
