import CallClusters.Proofs.Cluster.Tiling
import CallClusters.Proofs.Report.Sizes

/-! When a report has a result. It has none just where some sample is empty, and then it names the first
average that has no sample: medians lack a value for the same samples, and they come later. A report
that has a result divides by no empty count. -/

namespace CallClusters

variable {W : Type}

namespace Fault

/-- A median has no value. -/
def OfMedian : Fault → Prop
  | .emptyGraph metric =>
    metric = "median incoming edges per node" ∨ metric = "median outgoing edges per node"
  | .noClusters metric | .noQualifyingClusters _ metric => metric = "median cluster size"
  | _ => False

theorem ofSample_eq_none_iff {α : Type} {sample : List α} {fault : Fault} :
    ofSample sample fault = none ↔ sample ≠ [] := by
  simp [ofSample]

end Fault

theorem Clustering.sizes_none_eq_nil_iff {c : Clustering W} : c.sizes none = [] ↔ c.clusters = [] := by
  rw [sizes_none, List.map_eq_nil_iff]

theorem Clustering.exists_classified_iff {c : Clustering W} :
    0 < c.intraCount + c.interCount ↔
      ∃ e, (∃ k ∈ c.clusters, e ∈ k.intraEdges) ∨ e ∈ c.interEdges := by
  rw [intraCount_eq_length, interCount, ← List.length_append, List.length_pos_iff_exists_mem]
  simp only [List.mem_append, List.mem_flatMap]

variable [Number W]

theorem GraphStats.parts_of_compute {g : Graph W} {stats : GraphStats W} (h : compute g = .ok stats) :
    g.averageDegree = .ok stats.averageDegree ∧ g.medianInDegree = .ok stats.medianInDegree ∧
      g.medianOutDegree = .ok stats.medianOutDegree := by
  simp only [compute, Fault.bind_eq_ok_iff] at h
  obtain ⟨average, haverage, into, hin, out, hout, h⟩ := h
  cases h
  exact ⟨haverage, hin, hout⟩

namespace Report

/-- What is missing for a report: a node, a cluster, or a cluster above the first threshold that no
cluster exceeds. -/
inductive Lacks (g : Graph W) (c : Clustering W) (thresholds : List Nat) : Fault → Prop
  | node (h : g.nodes = []) : Lacks g c thresholds (.emptyGraph "average edges per node")
  | cluster (hnodes : g.nodes ≠ []) (h : c.clusters = []) :
    Lacks g c thresholds (.noClusters "average cluster size")
  | above (hnodes : g.nodes ≠ []) (hclusters : c.clusters ≠ []) {before after : List Nat} {t : Nat}
    (hsplit : thresholds = before ++ t :: after) (hbefore : ∀ u ∈ before, c.Exceeds u)
    (h : ¬ c.Exceeds t) :
    Lacks g c thresholds (.noQualifyingClusters t "average cluster size")

/-- The numbers of a report. Each quotient has a divisor other than zero, and a median halves. -/
structure Quotients (r : Report W) (g : Graph W) (c : Clustering W) (thresholds : List Nat) : Prop where
  nodeDivisor : g.nodes.length ≠ 0
  averageDegree : r.graph.averageDegree =
    Number.ofNat (total g.inDegrees) / Number.ofNat g.nodes.length
  medianInDegree : median g.inDegrees = some r.graph.medianInDegree
  medianOutDegree : median g.outDegrees = some r.graph.medianOutDegree
  allClusters : r.clusters.allClusters.threshold = none ∧
    r.clusters.allClusters.Summarises (c.sizes none)
  aboveThresholds : List.Forall₂ (fun t s => s.threshold = some t ∧ s.Summarises (c.sizes (some t)))
    thresholds r.clusters.aboveThresholds
  percentage : r.clusters.interPercentage =
    if 0 < c.intraCount + c.interCount then
      some (Number.ofNat c.interCount / Number.ofNat (c.intraCount + c.interCount) * Number.ofNat 100)
    else none

variable {g : Graph W} {c : Clustering W} {thresholds : List Nat}

theorem compute_eq_error_iff {fault : Fault} :
    (compute g c thresholds).result = .error fault ↔ Lacks g c thresholds fault := by
  rw [← Fault.of?_eq_some_iff, of?_compute, Option.or_eq_some_iff, Option.or_eq_some_iff]
  simp only [Fault.ofSample_eq_some_iff, Fault.ofSample_eq_none_iff, List.findSome?_eq_some_iff]
  constructor
  · rintro (⟨h, rfl⟩ | ⟨hnodes, ⟨h, rfl⟩ | ⟨hclusters, before, t, after, hsplit, ⟨h, rfl⟩, hbefore⟩⟩)
    · exact .node h
    · exact .cluster hnodes (Clustering.sizes_none_eq_nil_iff.1 h)
    · refine .above hnodes (mt Clustering.sizes_none_eq_nil_iff.2 hclusters) hsplit (fun u hu => ?_) ?_
      · exact Clustering.sizes_some_ne_nil_iff.1 (hbefore u hu)
      · exact mt Clustering.sizes_some_ne_nil_iff.2 (not_not.2 h)
  · rintro (h | ⟨hnodes, h⟩ | ⟨hnodes, hclusters, hsplit, hbefore, h⟩)
    · exact .inl ⟨h, rfl⟩
    · exact .inr ⟨hnodes, .inl ⟨Clustering.sizes_none_eq_nil_iff.2 h, rfl⟩⟩
    · refine .inr ⟨hnodes, .inr ⟨mt Clustering.sizes_none_eq_nil_iff.1 hclusters, _, _, _, hsplit,
        ⟨?_, rfl⟩, fun u hu => ?_⟩⟩
      · exact not_not.1 (mt Clustering.sizes_some_ne_nil_iff.1 h)
      · exact Clustering.sizes_some_ne_nil_iff.2 (hbefore u hu)

theorem exists_compute_eq_ok_iff :
    (∃ r, (compute g c thresholds).result = .ok r) ↔
      g.nodes ≠ [] ∧ c.clusters ≠ [] ∧ ∀ t ∈ thresholds, c.Exceeds t := by
  rw [← Fault.of?_eq_none_iff, of?_compute, Option.or_eq_none_iff, Option.or_eq_none_iff]
  simp only [Fault.ofSample_eq_none_iff, List.findSome?_eq_none_iff, Clustering.sizes_some_ne_nil_iff,
    Clustering.sizes_none_eq_nil_iff, ne_eq]

theorem quotients_of_compute {r : Report W} (h : (compute g c thresholds).result = .ok r) :
    r.Quotients g c thresholds := by
  obtain ⟨hgraph, hclusters⟩ := parts_of_compute h
  obtain ⟨haverage, hin, hout⟩ := GraphStats.parts_of_compute hgraph
  obtain ⟨hall, habove, hcounts⟩ := ClusterStats.parts_of_compute hclusters
  obtain ⟨hdivisor, haverage⟩ := Graph.averageDegree_eq_ok_iff.1 haverage
  exact {
    nodeDivisor := hdivisor
    averageDegree := haverage
    medianInDegree := Graph.medianInDegree_eq_ok_iff.1 hin
    medianOutDegree := Graph.medianOutDegree_eq_ok_iff.1 hout
    allClusters := Clustering.sizeSummary_eq_ok_iff.1 hall
    aboveThresholds := (Fault.mapM_eq_ok_iff.1 habove).imp fun _ _ => Clustering.sizeSummary_eq_ok_iff.1
    percentage := by rw [hcounts] }

omit [Number W] in
theorem Lacks.not_ofMedian {fault : Fault} (h : Lacks g c thresholds fault) : ¬ fault.OfMedian := by
  cases h <;> simp [Fault.OfMedian]

/-- A share of a whole, in percent. -/
theorem percentage_bounds {part whole : Nat} (h : part ≤ whole) :
    0 ≤ (part / whole * 100 : Rat) ∧ (part / whole * 100 : Rat) ≤ 100 := by
  have hnonneg : 0 ≤ (part / whole : Rat) := div_nonneg (Nat.cast_nonneg _) (Nat.cast_nonneg _)
  have hone : (part / whole : Rat) ≤ 1 :=
    div_le_one_of_le₀ (by exact_mod_cast h) (Nat.cast_nonneg _)
  exact ⟨by linarith, by linarith⟩

/-- A report has a result when there are nodes, clusters, and clusters above every threshold. Otherwise it
stops with the first of these that is missing, and never for want of a median. Where there is a result,
no divisor is zero, the summaries come in the order of the thresholds, and there is a percentage just
when there is an edge to classify; in exact arithmetic it is one. -/
theorem compute_unless_lacking :
    (∀ {W : Type} [Number W] (g : Graph W) (c : Clustering W) (thresholds : List Nat),
      ((∃ r, (compute g c thresholds).result = .ok r) ↔
        g.nodes ≠ [] ∧ c.clusters ≠ [] ∧ ∀ t ∈ thresholds, c.Exceeds t) ∧
      (∀ fault, (compute g c thresholds).result = .error fault ↔ Lacks g c thresholds fault) ∧
      (∀ fault, (compute g c thresholds).result = .error fault → ¬ fault.OfMedian) ∧
      ∀ r, (compute g c thresholds).result = .ok r → r.Quotients g c thresholds ∧
        ((∃ p, r.clusters.interPercentage = some p) ↔
          ∃ e, (∃ k ∈ c.clusters, e ∈ k.intraEdges) ∨ e ∈ c.interEdges)) ∧
    ∀ (g : Graph Rat) (c : Clustering Rat) (thresholds : List Nat) (r : Report Rat) (p : Rat),
      (compute g c thresholds).result = .ok r → r.clusters.interPercentage = some p → 0 ≤ p ∧ p ≤ 100 := by
  refine ⟨fun g c thresholds => ⟨exists_compute_eq_ok_iff, fun _ => compute_eq_error_iff,
    fun _ h => (compute_eq_error_iff.1 h).not_ofMedian, fun r h => ?_⟩, fun g c thresholds r p h hp => ?_⟩
  · have hquotients := quotients_of_compute h
    refine ⟨hquotients, ?_⟩
    rw [hquotients.percentage, ← Clustering.exists_classified_iff]
    split <;> simp [*]
  · rw [(quotients_of_compute h).percentage] at hp
    split at hp
    · cases hp
      exact percentage_bounds (Nat.le_add_left _ _)
    · cases hp

/-- The same clusters with thresholds that they all exceed, and with two that they do not. -/
theorem compute_unless_lacking_thresholds :
    let call : Edge Rat := ⟨"A", "B", .blank, .blank, 1⟩
    let g : Graph Rat := ⟨["A", "B", "C"], [call, call]⟩
    let c : Clustering Rat := ⟨[⟨1, ["A", "C"], []⟩, ⟨2, ["B"], []⟩], [call, call]⟩
    (∃ r p, (compute g c [1, 0]).result = .ok r ∧ r.Quotients g c [1, 0] ∧
      r.clusters.interPercentage = some p ∧ 0 ≤ p ∧ p ≤ 100) ∧
    (compute g c [1, 5, 0, 9]).result = .error (.noQualifyingClusters 5 "average cluster size") := by
  intro call g c
  obtain ⟨hcompute, hpercentage⟩ := compute_unless_lacking
  have hexceeds {t : Nat} (ht : t < 2) : c.Exceeds t := ⟨⟨1, ["A", "C"], []⟩, by simp [c], ht⟩
  constructor
  · obtain ⟨hok, -, -, hvalues⟩ := hcompute g c [1, 0]
    have hall : ∀ t ∈ [1, 0], c.Exceeds t := fun t ht => hexceeds (by revert t; decide)
    obtain ⟨r, hr⟩ := hok.2 ⟨by simp [g], by simp [c], hall⟩
    obtain ⟨hquotients, hpresent⟩ := hvalues r hr
    obtain ⟨p, hp⟩ := hpresent.2 ⟨call, .inr (by simp [c])⟩
    exact ⟨r, p, hr, hquotients, hp, hpercentage g c [1, 0] r p hr hp⟩
  · obtain ⟨-, herror, -⟩ := hcompute g c [1, 5, 0, 9]
    have hsplit : [1, 5, 0, 9] = [1] ++ 5 :: [0, 9] := rfl
    have hbefore : ∀ u ∈ [1], c.Exceeds u := fun u hu => hexceeds (by revert u; decide)
    have hnone : ¬ c.Exceeds 5 := by simp [Clustering.Exceeds, c, Cluster.size]
    exact (herror _).2 (.above (by simp [g]) (by simp [c]) hsplit hbefore hnone)

end Report

end CallClusters
