import CallClusters.Proofs.Distinct
import CallClusters.Proofs.Fault
import CallClusters.Proofs.Median
import CallClusters.Proofs.Traced
import CallClusters.Report.Stats

/-! Why a report stops. Averages are taken before medians, and both lack a value for the same
samples, the empty ones, so that only averages are ever named. -/

namespace CallClusters

variable {W : Type}

/-- Where the second part stops in the same way whatever it is given, the first part comes first. -/
theorem Traced.of?_bind {α β : Type} {x : Traced W α} {f : α → Traced W β} {second : Option Fault}
    (h : ∀ a, Fault.of? (f a).result = second) :
    Fault.of? (x >>= f).result = (Fault.of? x.result).or second := by
  cases hx : x.result with
  | ok a =>
    rw [bind_of_ok hx]
    exact h a
  | error fault =>
    rw [bind_of_error hx]
    rfl

theorem Traced.of?_bind_pure {α β : Type} (x : Traced W α) (f : α → β) :
    Fault.of? (x >>= fun a => pure (f a)).result = Fault.of? x.result := by
  have hpure : ∀ a, Fault.of? (pure (f a) : Traced W β).result = none := fun _ => rfl
  rw [of?_bind hpure, Option.or_none]

/-- The fault of an average, if there is no sample to take it of. -/
def Fault.ofSample {α : Type} (sample : List α) (fault : Fault) : Option Fault :=
  if sample.isEmpty then some fault else none

theorem Graph.names_eq_nil_iff {g : Graph W} : g.names = [] ↔ g.nodes = [] := by
  simp only [List.eq_nil_iff_forall_not_mem, names, List.mem_eraseDups]

variable [Number W]

theorem GraphStats.of?_compute (g : Graph W) :
    Fault.of? (compute g) = Fault.ofSample g.nodes (.emptyGraph "average edges per node") := by
  by_cases hnodes : g.nodes = []
  · simp only [compute, Graph.averageDegree, Graph.isEmpty, Fault.ofSample, hnodes]
    rfl
  · have hdegrees (endpoint : Edge W → String) : g.degrees endpoint ≠ [] := by
      rwa [Graph.degrees, ne_eq, List.map_eq_nil_iff, Graph.names_eq_nil_iff]
    obtain ⟨m, hm⟩ := exists_median (W := W) (hdegrees Edge.target)
    obtain ⟨n, hn⟩ := exists_median (W := W) (hdegrees Edge.source)
    simp only [compute, Graph.averageDegree, Graph.isEmpty, List.isEmpty_eq_false_iff.2 hnodes,
      Graph.medianInDegree, Graph.inDegrees, hm, Graph.medianOutDegree, Graph.outDegrees, hn,
      Fault.ofSample]
    rfl

theorem Clustering.of?_sizeSummary (c : Clustering W) (threshold : Option Nat) :
    Fault.of? (c.sizeSummary threshold : Except Fault (SizeSummary W)) =
      Fault.ofSample (c.sizes threshold) (emptySample threshold "average cluster size") := by
  by_cases hsizes : c.sizes threshold = []
  · simp only [sizeSummary, averageSize, Fault.ofSample, hsizes]
    rfl
  · obtain ⟨m, hm⟩ := exists_median (W := W) hsizes
    simp only [sizeSummary, averageSize, List.isEmpty_eq_false_iff.2 hsizes, medianSize, hm,
      Fault.ofSample]
    rfl

theorem ClusterStats.of?_compute (g : Graph W) (c : Clustering W) (thresholds : List Nat) :
    Fault.of? (compute g c thresholds).result =
      (Fault.of? (c.sizeSummary none : Except Fault (SizeSummary W))).or
        (thresholds.findSome? fun t =>
          Fault.of? (c.sizeSummary (some t) : Except Fault (SizeSummary W))) := by
  rw [← Fault.of?_mapM]
  simp only [compute]
  split
  -- The warning comes before all that can fail and stops nothing.
  case' isTrue => rw [Traced.emit_bind]
  all_goals
    refine Traced.of?_bind fun allClusters => ?_
    exact Traced.of?_bind_pure _ _

/-- The graph's own statistics come first, then the sizes of all clusters, and then those above each
threshold in turn. -/
theorem Report.of?_compute (g : Graph W) (c : Clustering W) (thresholds : List Nat) :
    Fault.of? (compute g c thresholds).result =
      (Fault.ofSample g.nodes (.emptyGraph "average edges per node")).or
        ((Fault.ofSample (c.sizes none) (.noClusters "average cluster size")).or
          (thresholds.findSome? fun t =>
            Fault.ofSample (c.sizes (some t)) (.noQualifyingClusters t "average cluster size"))) := by
  have hclusters := ClusterStats.of?_compute g c thresholds
  simp only [Clustering.of?_sizeSummary, Clustering.emptySample] at hclusters
  rw [compute, Traced.emit_bind, ← GraphStats.of?_compute, ← hclusters]
  refine Traced.of?_bind fun graph => ?_
  have hdone (clusters : ClusterStats W) :
      Fault.of? (Traced.emit (.stageFinished .report) >>= fun _ =>
        (pure ⟨graph, clusters⟩ : Traced W (Report W))).result = none := rfl
  rw [Traced.of?_bind hdone, Option.or_none]

/-! ### What a fault can be -/

section
variable {g : Graph W} {c : Clustering W} {thresholds : List Nat} {fault : Fault}

omit [Number W] in
theorem Fault.ofSample_eq_some_iff {α : Type} {sample : List α} {other : Fault} :
    ofSample sample fault = some other ↔ sample = [] ∧ fault = other := by
  simp [ofSample]

theorem GraphStats.compute_eq_error (h : compute g = .error fault) :
    g.nodes = [] ∧ ∃ metric, fault = .emptyGraph metric := by
  rw [← Fault.of?_eq_some_iff, of?_compute, Fault.ofSample_eq_some_iff] at h
  exact ⟨h.1, _, h.2.symm⟩

theorem ClusterStats.compute_result_eq_error
    (h : (compute g c thresholds).result = .error fault) : fault.OfStatistic := by
  rw [← Fault.of?_eq_some_iff, of?_compute, Option.or_eq_some_iff] at h
  simp only [Clustering.of?_sizeSummary, Clustering.emptySample, List.findSome?_eq_some_iff,
    Fault.ofSample_eq_some_iff] at h
  obtain ⟨-, h⟩ | ⟨-, -, threshold, -, -, ⟨-, h⟩, -⟩ := h
  · exact .inl ⟨_, h.symm⟩
  · exact .inr ⟨threshold, _, h.symm⟩

/-- With a node in the graph, only samples of clusters can be empty. -/
theorem Report.compute_result_eq_error (hg : g.isEmpty = false)
    (h : (compute g c thresholds).result = .error fault) : fault.OfStatistic := by
  simp only [compute, Traced.emit_bind, Traced.bind_result_eq_error] at h
  obtain h | ⟨graph, -, h | ⟨clusters, -, h⟩⟩ := h
  · rw [Graph.isEmpty, List.isEmpty_eq_false_iff] at hg
    exact absurd (GraphStats.compute_eq_error h).1 hg
  · exact ClusterStats.compute_result_eq_error h
  · cases h

end

end CallClusters
