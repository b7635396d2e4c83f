import CallClusters.Proofs.Cluster.Tiling
import CallClusters.Proofs.Report.Counts
import Mathlib.Algebra.BigOperators.Fin
import Mathlib.Algebra.Order.BigOperators.Group.Finset
import Mathlib.Combinatorics.Enumerative.DoubleCounting

/-! Counting edges by the lists that they are placed in. Communities may overlap, and then an edge
can be placed several times, but no edge is left out. So the lists have too many edges together
exactly when some edge is placed twice, and the report's check finds just that. -/

namespace CallClusters

variable {W : Type}

/-! ### Counting in two ways -/

section Counting
open Finset

variable {ι κ : Type} [Fintype ι] [Fintype κ]

theorem card_eq_one_iff_existsUnique {q : κ → Bool} :
    #{k | q k = true} = 1 ↔ ∃! k, q k = true := by
  rw [card_eq_one, singleton_iff_unique_mem]
  simp only [mem_filter, mem_univ, true_and]

variable {holds : κ → ι → Bool}

omit [Fintype ι] in
theorem one_le_card_of_exists (h : ∀ i, ∃ k, holds k i = true) (i : ι) :
    1 ≤ #{k | holds k i = true} := by
  obtain ⟨k, hk⟩ := h i
  exact card_pos.2 ⟨k, by simpa using hk⟩

theorem sum_card_eq (holds : κ → ι → Bool) :
    ∑ k, #{i | holds k i = true} = ∑ i, #{k | holds k i = true} :=
  sum_card_bipartiteAbove_eq_sum_card_bipartiteBelow fun k i => holds k i = true

theorem card_le_sum_card (h : ∀ i, ∃ k, holds k i = true) :
    Fintype.card ι ≤ ∑ k, #{i | holds k i = true} := by
  rw [sum_card_eq, ← card_univ, card_eq_sum_ones]
  exact sum_le_sum fun i _ => one_le_card_of_exists h i

/-- As no element is left out, double entries are not made up for elsewhere. -/
theorem sum_card_eq_card_iff (h : ∀ i, ∃ k, holds k i = true) :
    ∑ k, #{i | holds k i = true} = Fintype.card ι ↔ ∀ i, ∃! k, holds k i = true := by
  rw [sum_card_eq, ← card_univ, card_eq_sum_ones, eq_comm,
    sum_eq_sum_iff_of_le fun i _ => one_le_card_of_exists h i]
  simp only [mem_univ, true_implies]
  exact forall_congr' fun i => eq_comm.trans card_eq_one_iff_existsUnique

omit [Fintype κ] in
theorem not_existsUnique_iff {q : κ → Bool} (h : ∃ k, q k = true) :
    (¬ ∃! k, q k = true) ↔ ∃ k l, k ≠ l ∧ q k = true ∧ q l = true := by
  obtain ⟨k, hk⟩ := h
  constructor
  · intro hunique
    by_contra hall
    refine hunique ⟨k, hk, fun l hl => ?_⟩
    by_contra hne
    exact hall ⟨l, k, hne, hl, hk⟩
  · rintro ⟨k, l, hne, hk, hl⟩ hunique
    exact hne (hunique.unique hk hl)

end Counting

/-! ### The lists of a clustering -/

theorem Graph.length_select (g : Graph W) (chosen : Fin g.edges.length → Bool) :
    (g.select chosen).length = Finset.card {i | chosen i = true} := by
  change _ = ((List.finRange g.edges.length).filter fun i => decide (chosen i = true)).length
  simp only [select, List.length_map, Bool.decide_eq_true]

namespace Clustering

/-- The lists that edges are placed in: one for every cluster, and then the one between them. -/
def edgeLists (c : Clustering W) : List (List (Edge W)) :=
  c.clusters.map Cluster.intraEdges ++ [c.interEdges]

theorem sum_length_edgeLists (c : Clustering W) :
    ∑ k, (c.edgeLists.get k).length = c.intraCount + c.interCount := by
  calc ∑ k, (c.edgeLists.get k).length
      = (c.edgeLists.map List.length).sum := Fin.sum_univ_fun_getElem c.edgeLists List.length
    _ = c.edgeLists.flatten.length := List.length_flatten.symm
    _ = c.intraCount + c.interCount := by
      rw [intraCount_eq_length, interCount, ← List.length_append, List.flatMap_def, edgeLists,
        List.flatten_append, List.flatten_singleton]

/-- Every list is chosen by a property of edges, so it has all positions of an edge or none. -/
theorem exists_filter_eq {g : Graph W} {p : Partition} {l : List (Edge W)}
    (hl : l ∈ (classified g p).edgeLists) : ∃ q, l = g.edges.filter q := by
  rcases List.mem_append.1 hl with hl | hl
  · obtain ⟨cluster, hcluster, rfl⟩ := List.mem_map.1 hl
    obtain ⟨k, hk, rfl⟩ := List.mem_mapIdx.1 hcluster
    exact ⟨_, rfl⟩
  · exact ⟨_, List.mem_singleton.1 hl⟩

/-- If both ends have the same first community, this community's cluster has the edge; if they
have not, the edge crosses. -/
theorem exists_mem_edgeLists {g : Graph W} {p : Partition} (hcount : p.length < wordBound32)
    {e : Edge W} (he : e ∈ g.edges) : ∃ l ∈ (classified g p).edgeLists, e ∈ l := by
  cases hhome : p.homeOf e with
  | none =>
    refine ⟨(ofCommunities g p).crossingEdges g, by simp [edgeLists, classified], ?_⟩
    rw [crossingEdges_eq hcount]
    simp [he, hhome]
  | some k =>
    obtain ⟨hsource, htarget⟩ := Partition.homeOf_eq_some_iff.1 hhome
    have hk := Partition.lt_of_communityOf hsource
    have hm := List.getElem?_eq_getElem hk
    refine ⟨(clusterOfCommunity g k p[k]).intraEdges, ?_, ?_⟩
    · apply List.mem_append_left
      apply List.mem_map_of_mem
      exact List.mem_mapIdx.2 ⟨k, hk, rfl⟩
    · simp [clusterOfCommunity, Graph.edgesWithin, he, Partition.mem_of_communityOf hsource hm,
        Partition.mem_of_communityOf htarget hm]

/-- Lists that are chosen by properties of edges are chosen by positions. -/
theorem exists_select_eq {c : Clustering W} {g : Graph W}
    (h : ∀ l ∈ c.edgeLists, ∃ q, l = g.edges.filter q) :
    ∃ holds : Fin c.edgeLists.length → Fin g.edges.length → Bool,
      (∀ k, c.edgeLists.get k = g.select (holds k)) ∧
      ∀ k i, holds k i = true ↔ g.edges.get i ∈ c.edgeLists.get k := by
  choose q hq using fun k => h (c.edgeLists.get k) (List.get_mem _ k)
  refine ⟨fun k i => q k (g.edges.get i), fun k => ?_, fun k i => ?_⟩
  · exact (hq k).trans (g.filter_eq_select (q k))
  · rw [hq k, List.mem_filter, and_iff_right (List.get_mem _ i)]

theorem count_eq_sum_card {c : Clustering W} {g : Graph W}
    {holds : Fin c.edgeLists.length → Fin g.edges.length → Bool}
    (h : ∀ k, c.edgeLists.get k = g.select (holds k)) :
    c.intraCount + c.interCount = ∑ k, Finset.card {i | holds k i = true} := by
  simp only [← sum_length_edgeLists, h, Graph.length_select]

end Clustering

/-! ### What the report finds -/

namespace ClusterStats

variable [Number W] {g : Graph W} {c : Clustering W} {thresholds : List Nat}

theorem events_compute :
    (compute g c thresholds).events =
      if c.intraCount + c.interCount = g.edges.length then []
      else [.edgeCountMismatch (c.intraCount + c.interCount) g.edges.length] := by
  unfold compute
  by_cases h : c.intraCount + c.interCount = g.edges.length
  · simp only [h, beq_self_eq_true, Bool.not_true, Bool.false_eq_true, if_false, if_true]
    exact Traced.events_ofExcept_bind fun _ => Traced.events_ofExcept_bind fun _ => rfl
  · simp only [beq_eq_false_iff_ne.2 h, if_neg h, Bool.not_false, if_true, Traced.emit_bind]
    rw [Traced.events_ofExcept_bind fun _ => Traced.events_ofExcept_bind fun _ => rfl]

theorem edgeCountMismatch_mem_events_iff {classified total : Nat} :
    .edgeCountMismatch classified total ∈ (compute g c thresholds).events ↔
      classified = c.intraCount + c.interCount ∧ total = g.edges.length ∧ classified ≠ total := by
  rw [events_compute]
  split
  · simp only [List.not_mem_nil, false_iff]
    omega
  · simp only [List.mem_singleton, Event.edgeCountMismatch.injEq]
    omega

theorem consistent_of_compute {stats : ClusterStats W}
    (h : (compute g c thresholds).result = .ok stats) :
    stats.consistent = (c.intraCount + c.interCount == g.edges.length) := by
  rw [(parts_of_compute h).2.2]

end ClusterStats

namespace Clustering

variable [Number W]

/-- Every edge position is in one of the lists. The report warns exactly when some position is in
two of them, and then there are too many edges; its statistics are consistent exactly when every
position is in a single list. -/
theorem consistent_iff_placed_once {g : Graph W} {algorithm : Algorithm} {p : Partition}
    {c : Clustering W} (hcount : p.length < wordBound32)
    (h : (g.identifyClusters (.precomputed algorithm p)).result = .ok c) :
    ∃ holds : Fin c.edgeLists.length → Fin g.edges.length → Bool,
      (∀ k, c.edgeLists.get k = g.select (holds k)) ∧
      (∀ k i, holds k i = true ↔ g.edges.get i ∈ c.edgeLists.get k) ∧
      (∀ i, ∃ k, holds k i = true) ∧
      g.edges.length ≤ c.intraCount + c.interCount ∧
      ∀ thresholds,
        ((∃ classified total, .edgeCountMismatch classified total ∈
            (ClusterStats.compute g c thresholds).events) ↔
          ∃ i k l, k ≠ l ∧ holds k i = true ∧ holds l i = true) ∧
        (∀ classified total, .edgeCountMismatch classified total ∈
            (ClusterStats.compute g c thresholds).events →
          classified = c.intraCount + c.interCount ∧ total = g.edges.length ∧
            total < classified) ∧
        ∀ stats, (ClusterStats.compute g c thresholds).result = .ok stats →
          (stats.consistent = true ↔ ∀ i, ∃! k, holds k i = true) := by
  obtain ⟨q, hq, -, rfl⟩ := identifyClusters_result_eq_ok.1 h
  cases hq
  obtain ⟨holds, hlist, hmem⟩ := exists_select_eq fun l hl => exists_filter_eq (g := g) (p := p) hl
  have hsome (i) : ∃ k, holds k i = true := by
    obtain ⟨l, hl, hi⟩ := exists_mem_edgeLists hcount (List.get_mem g.edges i)
    obtain ⟨k, rfl⟩ := List.mem_iff_get.1 hl
    exact ⟨k, (hmem k i).2 hi⟩
  have hle := card_le_sum_card hsome
  have honce := sum_card_eq_card_iff hsome
  rw [← count_eq_sum_card hlist, Fintype.card_fin] at hle honce
  have htwice : (classified g p).intraCount + (classified g p).interCount ≠ g.edges.length ↔
      ∃ i k l, k ≠ l ∧ holds k i = true ∧ holds l i = true := by
    rw [ne_eq, honce, not_forall]
    exact exists_congr fun i => not_existsUnique_iff (hsome i)
  simp only [ClusterStats.edgeCountMismatch_mem_events_iff]
  refine ⟨holds, hlist, hmem, hsome, hle, fun thresholds => ⟨?_, ?_, fun stats hstats => ?_⟩⟩
  · rw [← htwice]
    constructor
    · rintro ⟨classified, total, rfl, rfl, hne⟩
      exact hne
    · exact fun hne => ⟨_, _, rfl, rfl, hne⟩
  · rintro classified total ⟨rfl, rfl, hne⟩
    exact ⟨rfl, rfl, lt_of_le_of_ne hle hne.symm⟩
  · rw [ClusterStats.consistent_of_compute hstats, beq_iff_eq, honce]

/-- One edge is in both clusters, another one in the second cluster and also between them. -/
theorem consistent_iff_placed_once_overlap :
    let call (s t : String) : Edge Rat := ⟨s, t, .blank, .blank, 1⟩
    let g : Graph Rat := ⟨["A", "B", "C"], [call "A" "B", call "B" "C", call "Z" "A"]⟩
    let p : Partition := [["A", "B"], ["C", "B", "A"], []]
    p.length < wordBound32 ∧ ∃ c, (g.identifyClusters (.precomputed .leiden p)).result = .ok c ∧
      ∃ classified total, .edgeCountMismatch classified total ∈
        (ClusterStats.compute g c [2]).events ∧ total < classified := by
  intro call g p
  have hcount : p.length < wordBound32 := by decide
  have h : (g.identifyClusters (.precomputed .leiden p)).result = .ok (classified g p) :=
    identifyClusters_result_eq_ok.2 ⟨p, rfl, by simp [p, g, Partition.Within], rfl⟩
  obtain ⟨holds, -, hmem, -, -, hreport⟩ := consistent_iff_placed_once hcount h
  obtain ⟨hmismatch, hmore, -⟩ := hreport [2]
  have hfirst : holds ⟨0, by decide⟩ ⟨0, by decide⟩ = true := (hmem _ _).2 (by decide)
  have hsecond : holds ⟨1, by decide⟩ ⟨0, by decide⟩ = true := (hmem _ _).2 (by decide)
  obtain ⟨classified, total, hevent⟩ :=
    hmismatch.2 ⟨_, _, _, by simp, hfirst, hsecond⟩
  exact ⟨hcount, _, h, classified, total, hevent, (hmore classified total hevent).2.2⟩

end Clustering

end CallClusters
