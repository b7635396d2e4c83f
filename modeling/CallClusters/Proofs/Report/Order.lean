import CallClusters.Proofs.Cluster.Tiling
import CallClusters.Proofs.Report.Counts
import CallClusters.Proofs.Report.Faults
import Mathlib.Logic.Equiv.Fin.Basic

/-! Reports do not depend on order. Nodes and edges may be listed in any order, repeated or dangling as
they are; disjoint communities may be listed in any order as well, and then only the lines of their
clusters change places. -/

namespace CallClusters

variable {W : Type}

/-! ### Places of elements in another order -/

/-- What is listed in another order has its places exchanged. -/
theorem exists_equiv_of_perm {α : Type} {xs ys : List α} (h : xs.Perm ys) :
    ∃ σ : Fin xs.length ≃ Fin ys.length, ∀ i, xs.get i = ys.get (σ i) := by
  induction h with
  | nil => exact ⟨Equiv.refl _, fun i => i.elim0⟩
  | @cons x xs ys _ ih =>
    obtain ⟨σ, hσ⟩ := ih
    refine ⟨(finSuccEquiv xs.length).trans (σ.optionCongr.trans (finSuccEquiv ys.length).symm), ?_⟩
    intro i
    cases i using Fin.cases with
    | zero => simp
    | succ i => simpa using hσ i
  | swap x y xs =>
    refine ⟨Equiv.swap 0 1, fun i => ?_⟩
    cases i using Fin.cases with
    | zero => simp
    | succ i =>
      cases i using Fin.cases with
      | zero => simp
      | succ i =>
        rw [Equiv.swap_apply_of_ne_of_ne (by simp) (by simp [Fin.ext_iff])]
        rfl
  | trans _ _ ih ih' =>
    obtain ⟨σ, hσ⟩ := ih
    obtain ⟨τ, hτ⟩ := ih'
    exact ⟨σ.trans τ, fun i => (hσ i).trans (hτ (σ i))⟩

/-- The report on the clusters that a partition makes. -/
def Graph.reportOn [Number W] (g : Graph W) (p : Partition) (thresholds : List Nat) :
    Traced W (Report W) := do
  let clustering ← Clustering.ofPartition g p
  Traced.emitAll (clustering.crossingEvents g)
  Report.compute g { clustering with interEdges := clustering.crossingEdges g } thresholds

namespace Clustering

/-- A name that is no node stops the report, and else it is made of the clusters and their edges. -/
theorem result_reportOn [Number W] (g : Graph W) (p : Partition) (thresholds : List Nat) :
    (g.reportOn p thresholds).result = match firstUnknown g 0 p with
      | some (index, name) => .error (.unknownMember (UInt32.ofNat (index + 1)) name)
      | none => (Report.compute g (classified g p) thresholds).result := by
  rw [Graph.reportOn, ofPartition]
  cases firstUnknown g 0 p <;> rfl

variable {g g' : Graph W} {p p' : Partition}

/-! ### Nodes and edges in another order -/

theorem firstUnknown_perm (hnodes : g'.nodes.Perm g.nodes) (index : Nat) (p : Partition) :
    firstUnknown g' index p = firstUnknown g index p := by
  have hcontains : g'.contains = g.contains := by
    funext name
    rw [Graph.contains, Graph.contains, Bool.eq_iff_iff, List.contains_iff_mem,
      List.contains_iff_mem, hnodes.mem_iff]
  induction p generalizing index with
  | nil => rfl
  | cons community p ih => simp only [firstUnknown, hcontains, ih]

theorem crosses_eq (c : Clustering W) (e : Edge W) :
    c.crosses e =
      match (c.clusterOf e.source).map Cluster.id, (c.clusterOf e.target).map Cluster.id with
      | some a, some b => a != b
      | _, _ => true := by
  rw [crosses]
  cases c.clusterOf e.source <;> cases c.clusterOf e.target <;> rfl

/-- The ids of the clusters are those of the communities, whatever the graph is. -/
theorem crosses_eq_of_partition (g g' : Graph W) (p : Partition) :
    (ofCommunities g' p).crosses = (ofCommunities g p).crosses := by
  have hid (name : String) : ((ofCommunities g' p).clusterOf name).map Cluster.id =
      ((ofCommunities g p).clusterOf name).map Cluster.id := by
    rw [clusterOf_ofCommunities, clusterOf_ofCommunities, Option.map_bind, Option.map_bind]
    congr 1
    funext i
    rw [Function.comp_apply, Function.comp_apply, Option.map_map, Option.map_map]
    rfl
  funext e
  rw [crosses_eq, crosses_eq, hid, hid]

section Edges
variable (hedges : g'.edges.Perm g.edges)
include hedges

theorem length_edgesWithin_perm (names : List String) :
    (g'.edgesWithin names).length = (g.edgesWithin names).length := (hedges.filter _).length_eq

theorem interCount_perm
    (hcrosses : (ofCommunities g' p').crosses = (ofCommunities g p).crosses) :
    (classified g' p').interCount = (classified g p).interCount := by
  change ((ofCommunities g' p').crossingEdges g').length = ((ofCommunities g p).crossingEdges g).length
  rw [crossingEdges, crossingEdges, hcrosses]
  exact (hedges.filter _).length_eq

/-- A community's cluster has the same line in both graphs, up to its id. -/
theorem line_clusterOfCommunity (i j : Nat) (community : List String) :
    (clusterOfCommunity g' j community).line =
      { (clusterOfCommunity g i community).line with id := UInt32.ofNat (j + 1) } := by
  simp only [clusterOfCommunity, Cluster.line, Cluster.size, length_edgesWithin_perm hedges]

theorem lines_eq_of_partition (p : Partition) :
    (classified g' p).clusters.map Cluster.line = (classified g p).clusters.map Cluster.line := by
  have hline (i : Nat) (community : List String) :
      (clusterOfCommunity g' i community).line = (clusterOfCommunity g i community).line :=
    line_clusterOfCommunity hedges i i community
  apply List.ext_getElem
  · simp [classified, ofCommunities]
  · intro i hi hi'
    simp [classified, ofCommunities, hline]

theorem counts_perm (hp : p'.Perm p) :
    ((classified g' p').clusters.map Cluster.counts).Perm
      ((classified g p).clusters.map Cluster.counts) := by
  have hcounts (g : Graph W) (p : Partition) : (classified g p).clusters.map Cluster.counts =
      p.map fun m => (m.eraseDups.length, (g.edgesWithin m.eraseDups).length) := by
    apply List.ext_getElem
    · simp [classified, ofCommunities]
    · intro i hi hi'
      simp [classified, ofCommunities, clusterOfCommunity, Cluster.counts, Cluster.size]
  rw [hcounts, hcounts]
  simp only [length_edgesWithin_perm hedges]
  exact hp.map _

end Edges

/-! ### Communities in another order -/

/-- Whether an edge lies within some community is not a matter of order. -/
theorem crosses_perm (hcount : p.length < wordBound32) (hd : p.Pairwise List.Disjoint)
    (hp : p'.Perm p) : (ofCommunities g' p').crosses = (ofCommunities g p).crosses := by
  have hd' : p'.Pairwise List.Disjoint := hd.perm hp.symm fun h _ hx hy => h hy hx
  have hcount' : p'.length < wordBound32 := hp.length_eq ▸ hcount
  funext e
  rw [crosses_iff_homeOf hcount', crosses_iff_homeOf hcount, Bool.eq_iff_iff, beq_iff_eq, beq_iff_eq,
    Partition.homeOf_eq_none_iff_of_disjoint hd', Partition.homeOf_eq_none_iff_of_disjoint hd]
  exact forall_congr' fun m => by rw [hp.mem_iff]

end Clustering

theorem GraphStats.compute_perm [Number W] {g g' : Graph W} (hnodes : g'.nodes.Perm g.nodes)
    (hedges : g'.edges.Perm g.edges) : compute g' = compute g :=
  compute_eq_of_counts hnodes.length_eq hedges.length_eq (Graph.distinctEdgeCount_perm hedges)
    (Graph.isolatedCount_perm hnodes hedges) (Graph.degrees_perm hnodes hedges _)
    (Graph.degrees_perm hnodes hedges _)

/-- The new lines are the old ones in the places that `σ` gives them, numbered from one. -/
def Renumbered {n m : Nat} (σ : Fin n ≃ Fin m) (old new : List ClusterLine) : Prop :=
  old.length = m ∧ new.length = n ∧ ∀ i : Fin n, ∃ line id, old[(σ i).val]? = some line ∧
    id.toNat = i.val + 1 ∧ new[i.val]? = some { line with id := id }

namespace Clustering

variable {g g' : Graph W} {p p' : Partition}

/-- Clusters of the same communities have the same lines, but for their numbers. -/
theorem renumbered_lines (hedges : g'.edges.Perm g.edges) (hcount : p'.length < wordBound32)
    (σ : Fin p'.length ≃ Fin p.length) (hσ : ∀ i, p'.get i = p.get (σ i)) :
    Renumbered σ ((classified g p).clusters.map Cluster.line)
      ((classified g' p').clusters.map Cluster.line) := by
  refine ⟨by simp [classified, ofCommunities], by simp [classified, ofCommunities], fun i => ?_⟩
  have hi : i.val + 1 < 2 ^ 32 := Nat.lt_of_le_of_lt i.isLt hcount
  refine ⟨(clusterOfCommunity g (σ i) (p.get (σ i))).line, UInt32.ofNat (i + 1), ?_, ?_, ?_⟩
  · simp [classified, ofCommunities]
  · rw [UInt32.toNat_ofNat', Nat.mod_eq_of_lt hi]
  · rw [← line_clusterOfCommunity hedges (σ i) i, ← hσ i]
    simp [classified, ofCommunities]

end Clustering

namespace Graph

open Clustering

variable [Number W] {g g' : Graph W}

/-- The order of nodes and edges makes no difference to a report, nor to the fault that it stops with.
If disjoint communities of nodes come in another order, the report is the same but for its lines, which
come in that order too and are numbered anew. -/
theorem reportOn_perm (hnodes : g'.nodes.Perm g.nodes) (hedges : g'.edges.Perm g.edges)
    (p : Partition) (thresholds : List Nat) :
    (g'.reportOn p thresholds).result = (g.reportOn p thresholds).result ∧
    ∀ p' : Partition, p.length < wordBound32 → p.Pairwise List.Disjoint → p.Within g → p'.Perm p →
      (∀ fault, (g'.reportOn p' thresholds).result = .error fault ↔
        (g.reportOn p thresholds).result = .error fault) ∧
      ∀ report, (g.reportOn p thresholds).result = .ok report →
        ∃ lines, (g'.reportOn p' thresholds).result = .ok (report.withLines lines) ∧
          (∃ σ : Fin p'.length ≃ Fin p.length, ∀ i, p'.get i = p.get (σ i)) ∧
          ∀ σ : Fin p'.length ≃ Fin p.length, (∀ i, p'.get i = p.get (σ i)) →
            Renumbered σ report.clusters.clusters lines := by
  have hgraph := GraphStats.compute_perm hnodes hedges
  refine ⟨?_, fun p' hcount hd hwithin hp => ?_⟩
  · rw [result_reportOn, result_reportOn, firstUnknown_perm hnodes,
      Report.compute_eq_of_lines hgraph hedges.length_eq (lines_eq_of_partition hedges p)
        (interCount_perm hedges (crosses_eq_of_partition g g' p))]
  · have hwithin' : p'.Within g' := fun m hm name hname =>
      hnodes.mem_iff.2 (hwithin m (hp.mem_iff.1 hm) name hname)
    have hreport := Report.compute_eq_of_counts hedges.length_eq (counts_perm hedges hp)
      (interCount_perm hedges (crosses_perm hcount hd hp)) hgraph thresholds
    rw [result_reportOn, result_reportOn, (firstUnknown_eq_none_iff g p 0).2 hwithin,
      (firstUnknown_eq_none_iff g' p' 0).2 hwithin', hreport]
    cases h : (Report.compute g (classified g p) thresholds).result with
    | error fault =>
      rw [Traced.bind_of_error h]
      exact ⟨fun _ => Iff.rfl, nofun⟩
    | ok report =>
      rw [Traced.bind_of_ok h]
      refine ⟨fun fault => ⟨nofun, nofun⟩, ?_⟩
      rintro _ ⟨rfl⟩
      refine ⟨_, rfl, exists_equiv_of_perm hp, fun σ hσ => ?_⟩
      rw [Report.lines_of_compute h]
      exact renumbered_lines hedges (hp.length_eq ▸ hcount) σ hσ

omit [Number W] in
/-- A repeated node, parallel edges and a dangling edge, and communities of which one is empty. -/
theorem reportOn_perm_rotated :
    let call (s t : String) : Edge Rat := ⟨s, t, .blank, .blank, 1⟩
    let g : Graph Rat := ⟨["A", "B", "A", "C"],
      [call "A" "B", call "B" "C", call "A" "B", call "A" "Z"]⟩
    let g' : Graph Rat := ⟨["C", "A", "A", "B"],
      [call "A" "Z", call "A" "B", call "A" "B", call "B" "C"]⟩
    let p : Partition := [["A", "B", "A"], ["C"], []]
    let p' : Partition := [["C"], [], ["A", "B", "A"]]
    g'.nodes.Perm g.nodes ∧ g'.edges.Perm g.edges ∧ p'.Perm p ∧ p.length < wordBound32 ∧
      p.Pairwise List.Disjoint ∧ p.Within g ∧
      ∃ report lines, (g.reportOn p [1]).result = .ok report ∧
        (g'.reportOn p' [1]).result = .ok (report.withLines lines) ∧
        ∃ σ : Fin p'.length ≃ Fin p.length, Renumbered σ report.clusters.clusters lines := by
  intro call g g' p p'
  have hnodes : g'.nodes.Perm g.nodes := by decide
  have hedges : g'.edges.Perm g.edges := by decide
  have hp : p'.Perm p := by decide
  have hcount : p.length < wordBound32 := by decide
  have hd : p.Pairwise List.Disjoint := by simp [p, List.Disjoint]
  have hwithin : p.Within g := by simp [p, g, Partition.Within]
  obtain ⟨report, hcompute⟩ := Fault.of?_eq_none_iff.1
    ((Report.of?_compute g (classified g p) [1]).trans (by decide))
  have hreport : (g.reportOn p [1]).result = .ok report := by
    rw [result_reportOn, (firstUnknown_eq_none_iff g p 0).2 hwithin]
    exact hcompute
  obtain ⟨-, hcommunities⟩ := reportOn_perm hnodes hedges p [1]
  obtain ⟨lines, hlines, ⟨σ, hσ⟩, hrenumbered⟩ :=
    (hcommunities p' hcount hd hwithin hp).2 report hreport
  exact ⟨hnodes, hedges, hp, hcount, hd, hwithin, report, lines, hreport, hlines, σ, hrenumbered σ hσ⟩

end Graph

end CallClusters
