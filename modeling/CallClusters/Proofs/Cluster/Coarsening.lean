import CallClusters.Proofs.Cluster.Tiling

/-! Coarser partitions have fewer edges between their clusters. What crosses a partition crosses every
disjoint one that it is coarser than, edge position by edge position. At the finest end, where every
node is alone, all edges cross but the nodes' loops. -/

namespace CallClusters

variable {W : Type}

namespace Partition

/-- Every community lies within a community of the other partition. -/
def Refines (p q : Partition) : Prop := ∀ m ∈ p, ∃ k ∈ q, ∀ name ∈ m, name ∈ k

/-- Every node has a community without another name. -/
def Isolates (p : Partition) (g : Graph W) : Prop :=
  ∀ name ∈ g.nodes, ∃ m ∈ p, name ∈ m ∧ ∀ other ∈ m, other = name

end Partition

namespace Clustering

variable {g : Graph W} {p q : Partition}

/-- Between disjoint communities those edges cross whose ends are not together in any. -/
theorem crosses_iff_of_disjoint (hcount : p.length < wordBound32) (hd : p.Pairwise List.Disjoint)
    (e : Edge W) :
    (ofCommunities g p).crosses e = true ↔ ∀ m ∈ p, ¬(e.source ∈ m ∧ e.target ∈ m) := by
  rw [crosses_iff_homeOf hcount, beq_iff_eq, Partition.homeOf_eq_none_iff_of_disjoint hd]

/-- Ends that are together in the finer partition are together in the coarser one. -/
theorem crosses_of_refines (hp : p.length < wordBound32) (hq : q.length < wordBound32)
    (hpd : p.Pairwise List.Disjoint) (hqd : q.Pairwise List.Disjoint) (hrefines : p.Refines q)
    {e : Edge W} (h : (ofCommunities g q).crosses e = true) :
    (ofCommunities g p).crosses e = true := by
  rw [crosses_iff_of_disjoint hq hqd] at h
  rw [crosses_iff_of_disjoint hp hpd]
  rintro m hm ⟨hsource, htarget⟩
  obtain ⟨k, hk, hsub⟩ := hrefines m hm
  exact h k hk ⟨hsub _ hsource, hsub _ htarget⟩

/-- Where every node is alone, two ends are together only in a loop at a node. -/
theorem crosses_iff_of_isolates (hcount : p.length < wordBound32) (hd : p.Pairwise List.Disjoint)
    (hwithin : p.Within g) (halone : p.Isolates g) (e : Edge W) :
    (ofCommunities g p).crosses e = true ↔ e.source ≠ e.target ∨ e.source ∉ g.nodes := by
  rw [crosses_iff_of_disjoint hcount hd]
  constructor
  · intro h
    by_contra hloop
    obtain ⟨heq, hnode⟩ : e.source = e.target ∧ e.source ∈ g.nodes := by
      simpa only [not_or, not_not] using hloop
    obtain ⟨m, hm, hmem, -⟩ := halone _ hnode
    exact h m hm ⟨hmem, heq ▸ hmem⟩
  · rintro h m hm ⟨hsource, htarget⟩
    obtain ⟨k, hk, hmem, honly⟩ := halone _ (hwithin m hm _ hsource)
    rw [Partition.eq_of_mem_of_disjoint hd hm hk hsource hmem] at htarget
    rcases h with hne | hnode
    · exact hne (honly _ htarget).symm
    · exact hnode (hwithin k hk _ hmem)

/-- The edges between the clusters of the coarser partition are at positions of edges between those
of the finer one, so that there are no more of them. Where every node is alone, they are all edges
but the loops at nodes. -/
theorem interEdges_coarsen [Number W] (a b : Algorithm) (hp : p.length < wordBound32)
    (hq : q.length < wordBound32) (hpd : p.Pairwise List.Disjoint) (hqd : q.Pairwise List.Disjoint)
    (hpw : p.Within g) (hqw : q.Within g) (hrefines : p.Refines q) :
    ∃ fine coarse, (g.identifyClusters (.precomputed a p)).result = .ok fine ∧
      (g.identifyClusters (.precomputed b q)).result = .ok coarse ∧
      fine.interEdges = (g.select fun i => fine.crosses (g.edges.get i)) ∧
      coarse.interEdges = (g.select fun i => coarse.crosses (g.edges.get i)) ∧
      (∀ i, coarse.crosses (g.edges.get i) = true → fine.crosses (g.edges.get i) = true) ∧
      coarse.interEdges.Sublist fine.interEdges ∧ coarse.interCount ≤ fine.interCount ∧
      (p.Isolates g → fine.interEdges =
        g.edges.filter fun e => decide (e.source ≠ e.target ∨ e.source ∉ g.nodes)) := by
  have hcrosses (e : Edge W) : (ofCommunities g q).crosses e = true →
      (ofCommunities g p).crosses e = true := crosses_of_refines hp hq hpd hqd hrefines
  have hsublist : ((ofCommunities g q).crossingEdges g).Sublist
      ((ofCommunities g p).crossingEdges g) := by
    apply List.monotone_filter_right
    exact hcrosses
  refine ⟨classified g p, classified g q, identifyClusters_result_eq_ok.2 ⟨p, rfl, hpw, rfl⟩,
    identifyClusters_result_eq_ok.2 ⟨q, rfl, hqw, rfl⟩, g.filter_eq_select _, g.filter_eq_select _,
    fun i => hcrosses _, hsublist, hsublist.length_le, fun halone => ?_⟩
  apply List.filter_congr
  intro e _
  rw [Bool.eq_iff_iff, decide_eq_true_iff]
  exact crosses_iff_of_isolates hp hpd hpw halone e

/-- Three nodes alone, two of which come together in the coarser partition; of the two loops, one is
at no node. -/
theorem interEdges_coarsen_alone :
    let call (s t : String) : Edge Rat := ⟨s, t, .blank, .blank, 1⟩
    let g : Graph Rat := ⟨["A", "B", "C"],
      [call "A" "B", call "C" "A", call "C" "C", call "Z" "Z", call "A" "B"]⟩
    let p : Partition := [["A"], ["B", "B"], [], ["C"]]
    let q : Partition := [["C", "A"], ["B"]]
    (p.length < wordBound32 ∧ q.length < wordBound32 ∧ p.Pairwise List.Disjoint ∧
      q.Pairwise List.Disjoint ∧ p.Within g ∧ q.Within g ∧ p.Refines q ∧ p.Isolates g) ∧
    ∃ fine coarse, (g.identifyClusters (.precomputed .leiden p)).result = .ok fine ∧
      (g.identifyClusters (.precomputed .louvain q)).result = .ok coarse ∧
      coarse.interEdges.Sublist fine.interEdges ∧
      fine.interEdges = [call "A" "B", call "C" "A", call "Z" "Z", call "A" "B"] := by
  intro call g p q
  have hp : p.length < wordBound32 := by decide
  have hq : q.length < wordBound32 := by decide
  have hpd : p.Pairwise List.Disjoint := by simp [p, List.Disjoint]
  have hqd : q.Pairwise List.Disjoint := by simp [q, List.Disjoint]
  have hpw : p.Within g := by simp [p, g, Partition.Within]
  have hqw : q.Within g := by simp [q, g, Partition.Within]
  have hrefines : p.Refines q := by simp [p, q, Partition.Refines]
  have halone : p.Isolates g := by simp [p, g, Partition.Isolates]
  obtain ⟨fine, coarse, hfine, hcoarse, -, -, -, hsub, -, hloops⟩ :=
    interEdges_coarsen .leiden .louvain hp hq hpd hqd hpw hqw hrefines
  exact ⟨⟨hp, hq, hpd, hqd, hpw, hqw, hrefines, halone⟩, fine, coarse, hfine, hcoarse, hsub,
    (hloops halone).trans (by decide)⟩

end Clustering

end CallClusters
