import CallClusters.Proofs.Graph.Degree
import CallClusters.Proofs.Traced
import CallClusters.Report.Stats

/-! What a report is made of. Of the graph it takes counts, and the degrees in any order; of the
clusters it takes how many nodes and edges each of them has, also in any order. Only its lines show
the clusters one by one. -/

namespace CallClusters

variable {W : Type}

/-- How many nodes and edges a cluster has. -/
def Cluster.counts (k : Cluster W) : Nat × Nat := (k.size, k.intraEdges.length)

namespace Clustering

variable {c c' : Clustering W}

theorem intraCount_eq_of_counts (h : (c'.clusters.map Cluster.counts).Perm (c.clusters.map Cluster.counts)) :
    c'.intraCount = c.intraCount := by
  have hintra := total_perm (h.map Prod.snd)
  rwa [List.map_map, List.map_map] at hintra

theorem length_eq_of_counts (h : (c'.clusters.map Cluster.counts).Perm (c.clusters.map Cluster.counts)) :
    c'.clusters.length = c.clusters.length := by
  simpa only [List.length_map] using h.length_eq

theorem sizes_perm (h : (c'.clusters.map Cluster.counts).Perm (c.clusters.map Cluster.counts))
    (threshold : Option Nat) : (c'.sizes threshold).Perm (c.sizes threshold) := by
  have hsizes := h.map Prod.fst
  rw [List.map_map, List.map_map] at hsizes
  exact hsizes.filter _

/-- Clusters above a threshold are counted in the same way as their sizes are collected. -/
theorem countLarger_eq (c : Clustering W) (threshold : Nat) :
    c.countLarger threshold = (c.sizes (some threshold)).length := by
  rw [countLarger, sizes, List.countP_eq_length_filter, List.filter_map, List.length_map]
  rfl

theorem sizeSummary_eq_of_counts [Number W]
    (h : (c'.clusters.map Cluster.counts).Perm (c.clusters.map Cluster.counts))
    (threshold : Option Nat) :
    (c'.sizeSummary threshold : Except Fault (SizeSummary W)) = c.sizeSummary threshold := by
  have hsizes := sizes_perm h threshold
  have hempty : (c'.sizes threshold).isEmpty = (c.sizes threshold).isEmpty := by
    rw [Bool.eq_iff_iff, List.isEmpty_iff, List.isEmpty_iff, ← List.perm_nil, ← List.perm_nil]
    exact hsizes.congr_left []
  have haverage : (c'.averageSize threshold : Except Fault W) = c.averageSize threshold := by
    simp only [averageSize, hempty, total_perm hsizes, hsizes.length_eq]
  have hmedian : (c'.medianSize threshold : Except Fault W) = c.medianSize threshold := by
    simp only [medianSize, median_perm hsizes]
  have hlarger (t : Nat) : c'.countLarger t = c.countLarger t := by
    rw [countLarger_eq, countLarger_eq, (sizes_perm h (some t)).length_eq]
  simp only [sizeSummary, haverage, hmedian, hlarger, length_eq_of_counts h]

end Clustering

variable [Number W]

theorem GraphStats.compute_eq_of_counts {g g' : Graph W} (hnodes : g'.nodes.length = g.nodes.length)
    (hedges : g'.edges.length = g.edges.length)
    (hdistinct : g'.distinctEdgeCount = g.distinctEdgeCount)
    (hisolated : g'.isolatedCount = g.isolatedCount) (hin : g'.inDegrees.Perm g.inDegrees)
    (hout : g'.outDegrees.Perm g.outDegrees) : compute g' = compute g := by
  have hempty : g'.isEmpty = g.isEmpty := by
    rw [Graph.isEmpty, Graph.isEmpty, Bool.eq_iff_iff, List.isEmpty_iff_length_eq_zero,
      List.isEmpty_iff_length_eq_zero, hnodes]
  have haverage : (g'.averageDegree : Except Fault W) = g.averageDegree := by
    simp only [Graph.averageDegree, hempty, total_perm hin, hnodes]
  have hmedianIn : (g'.medianInDegree : Except Fault W) = g.medianInDegree := by
    simp only [Graph.medianInDegree, median_perm hin]
  have hmedianOut : (g'.medianOutDegree : Except Fault W) = g.medianOutDegree := by
    simp only [Graph.medianOutDegree, median_perm hout]
  simp only [compute, haverage, hmedianIn, hmedianOut, hnodes, hedges, hdistinct, hisolated]

/-- The same report with other lines for the clusters. -/
def Report.withLines (lines : List ClusterLine) (r : Report W) : Report W :=
  { r with clusters := { r.clusters with clusters := lines } }

section Lines
variable {g g' : Graph W} {c c' : Clustering W} (hedges : g'.edges.length = g.edges.length)
  (hcounts : (c'.clusters.map Cluster.counts).Perm (c.clusters.map Cluster.counts))
  (hinter : c'.interCount = c.interCount)
include hedges hcounts hinter

theorem ClusterStats.compute_eq_of_counts (thresholds : List Nat) :
    compute g' c' thresholds = do
      let stats ← compute g c thresholds
      return { stats with clusters := c'.clusters.map Cluster.line } := by
  simp only [compute, hedges, hinter, Clustering.intraCount_eq_of_counts hcounts,
    Clustering.length_eq_of_counts hcounts, Clustering.sizeSummary_eq_of_counts hcounts]
  -- Nothing after the two summaries can fail, and the warning comes before them.
  cases c.sizeSummary none <;> cases thresholds.mapM (fun t => c.sizeSummary (some t)) <;>
    split <;> rfl

/-- Everything but the lines is the same. -/
theorem Report.compute_eq_of_counts (hgraph : GraphStats.compute g' = GraphStats.compute g)
    (thresholds : List Nat) :
    compute g' c' thresholds = do
      let report ← compute g c thresholds
      return report.withLines (c'.clusters.map Cluster.line) := by
  simp only [compute, hgraph, ClusterStats.compute_eq_of_counts hedges hcounts hinter,
    Traced.bind_assoc, Traced.pure_bind]
  rfl

end Lines

/-- Clusters with the same lines make the same report. -/
theorem Report.compute_eq_of_lines {g g' : Graph W} {c c' : Clustering W}
    (hgraph : GraphStats.compute g' = GraphStats.compute g)
    (hedges : g'.edges.length = g.edges.length)
    (hlines : c'.clusters.map Cluster.line = c.clusters.map Cluster.line)
    (hinter : c'.interCount = c.interCount) (thresholds : List Nat) :
    compute g' c' thresholds = compute g c thresholds := by
  have hcounts : c'.clusters.map Cluster.counts = c.clusters.map Cluster.counts := by
    have h := congrArg (List.map fun l : ClusterLine => (l.nodeCount, l.intraCount)) hlines
    rwa [List.map_map, List.map_map] at h
  rw [compute_eq_of_counts hedges (.of_eq hcounts) hinter hgraph, hlines,
    ← compute_eq_of_counts rfl (.refl _) rfl rfl]

/-- What can fail gives its part of the statistics, and the rest is counted. -/
theorem ClusterStats.parts_of_compute {g : Graph W} {c : Clustering W} {thresholds : List Nat}
    {stats : ClusterStats W} (h : (compute g c thresholds).result = .ok stats) :
    c.sizeSummary none = .ok stats.allClusters ∧
    thresholds.mapM (fun t => c.sizeSummary (some t)) = .ok stats.aboveThresholds ∧
    stats = { stats with
      clusterCount := c.clusters.length
      intraCount := c.intraCount
      interCount := c.interCount
      totalCount := c.intraCount + c.interCount
      consistent := c.intraCount + c.interCount == g.edges.length
      clusters := c.clusters.map Cluster.line
      interPercentage :=
        if c.intraCount + c.interCount > 0 then
          some (Number.ofNat c.interCount / Number.ofNat (c.intraCount + c.interCount) *
            Number.ofNat 100)
        else none } := by
  simp only [compute] at h
  split at h
  -- The warning comes before all that can fail and changes nothing of what follows.
  case' isTrue => rw [Traced.emit_bind] at h
  all_goals
    obtain ⟨allClusters, hall, h⟩ := Traced.bind_result_eq_ok.1 h
    obtain ⟨aboveThresholds, habove, h⟩ := Traced.bind_result_eq_ok.1 h
    cases h
    exact ⟨hall, habove, rfl⟩

theorem Report.parts_of_compute {g : Graph W} {c : Clustering W} {thresholds : List Nat}
    {report : Report W} (h : (compute g c thresholds).result = .ok report) :
    GraphStats.compute g = .ok report.graph ∧
      (ClusterStats.compute g c thresholds).result = .ok report.clusters := by
  simp only [compute, Traced.emit_bind, Traced.bind_result_eq_ok] at h
  obtain ⟨graph, hgraph, clusters, hclusters, h⟩ := h
  cases h
  exact ⟨hgraph, hclusters⟩

theorem Report.lines_of_compute {g : Graph W} {c : Clustering W} {thresholds : List Nat}
    {report : Report W} (h : (compute g c thresholds).result = .ok report) :
    report.clusters.clusters = c.clusters.map Cluster.line := by
  rw [(ClusterStats.parts_of_compute (parts_of_compute h).2).2.2]

end CallClusters
