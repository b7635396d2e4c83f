import CallClusters.Proofs.Cluster.Build
import Mathlib.Data.List.FinRange

/-! Disjoint communities tile the edges of a graph: every edge position goes to one list, to that
of the cluster whose community has both ends, or else to the list between the clusters. -/

namespace CallClusters

variable {W : Type}

/-! ### Lists tiled by a choice -/

/-- What is chosen for a position below `n`, position by position, and then the rest. -/
theorem flatten_filter_append_perm {α : Type} (n : Nat) (f : α → Option Nat) (xs : List α)
    (h : ∀ x ∈ xs, ∀ k, f x = some k → k < n) :
    (((List.range n).map fun k => xs.filter fun x => f x == some k).flatten ++
      xs.filter fun x => f x == none).Perm xs := by
  have hkeys : ((List.range n).map some ++ [none]).Nodup := by
    rw [List.nodup_append]
    exact ⟨List.nodup_range.map (Option.some_injective _), by simp, by simp⟩
  have hmem : ∀ x ∈ xs, f x ∈ (List.range n).map some ++ [none] := by
    intro x hx
    cases hk : f x with
    | none => simp
    | some k => simpa using h x hx k hk
  have hperm := flatten_filter_perm hkeys hmem
  rw [List.map_append, List.map_map, List.flatten_append, List.map_singleton,
    List.flatten_singleton] at hperm
  exact hperm

theorem total_map_length {α : Type} (xss : List (List α)) :
    total (xss.map List.length) = xss.flatten.length := by
  induction xss with
  | nil => rfl
  | cons xs xss ih => rw [List.map_cons, total, ih, List.flatten_cons, List.length_append]

/-! ### Where edges go -/

/-- The edges at the positions that are chosen, in graph order. -/
def Graph.select (g : Graph W) (chosen : Fin g.edges.length → Bool) : List (Edge W) :=
  ((List.finRange g.edges.length).filter chosen).map g.edges.get

theorem Graph.filter_eq_select (g : Graph W) (q : Edge W → Bool) :
    g.edges.filter q = g.select fun i => q (g.edges.get i) := by
  conv_lhs => rw [← List.map_get_finRange g.edges]
  rw [List.filter_map]
  rfl

/-- The edges at the positions that are given `home`, in graph order. -/
def Graph.edgesAt (g : Graph W) (place : Fin g.edges.length → Option Nat) (home : Option Nat) :
    List (Edge W) :=
  ((List.finRange g.edges.length).filter fun i => place i == home).map g.edges.get

theorem Graph.filter_eq_edgesAt (g : Graph W) (f : Edge W → Option Nat) (home : Option Nat) :
    g.edges.filter (fun e => f e == home) = g.edgesAt (fun i => f (g.edges.get i)) home :=
  g.filter_eq_select fun e => f e == home

/-- The community that is the first one for both ends. -/
def Partition.homeOf (p : Partition) (e : Edge W) : Option Nat :=
  if p.communityOf e.source = p.communityOf e.target then p.communityOf e.source else none

namespace Partition

theorem homeOf_eq_some_iff {p : Partition} {e : Edge W} {k : Nat} :
    p.homeOf e = some k ↔ p.communityOf e.source = some k ∧ p.communityOf e.target = some k := by
  unfold homeOf
  split
  · rename_i h
    simp [← h]
  · rename_i h
    simp only [reduceCtorEq, false_iff, not_and]
    exact fun hs ht => h (hs.trans ht.symm)

theorem homeOf_eq_some_iff_of_disjoint {p : Partition} (hd : p.Pairwise List.Disjoint)
    {e : Edge W} {k : Nat} :
    p.homeOf e = some k ↔ ∃ m, p[k]? = some m ∧ e.source ∈ m ∧ e.target ∈ m := by
  rw [homeOf_eq_some_iff]
  constructor
  · rintro ⟨hs, ht⟩
    obtain ⟨m, hm, hmem⟩ := (communityOf_eq_some_iff_of_disjoint hd).1 hs
    exact ⟨m, hm, hmem, mem_of_communityOf ht hm⟩
  · rintro ⟨m, hm, hs, ht⟩
    simp only [communityOf_eq_some_iff_of_disjoint hd]
    exact ⟨⟨m, hm, hs⟩, m, hm, ht⟩

theorem homeOf_eq_none_iff_of_disjoint {p : Partition} (hd : p.Pairwise List.Disjoint)
    {e : Edge W} : p.homeOf e = none ↔ ∀ m ∈ p, ¬(e.source ∈ m ∧ e.target ∈ m) := by
  simp only [Option.eq_none_iff_forall_ne_some, ne_eq, homeOf_eq_some_iff_of_disjoint hd]
  constructor
  · intro h m hm hends
    obtain ⟨k, hk⟩ := List.mem_iff_getElem?.1 hm
    exact h k ⟨m, hk, hends⟩
  · rintro h k ⟨m, hm, hends⟩
    exact h m (List.mem_of_getElem? hm) hends

end Partition

namespace Clustering

theorem crosses_iff_homeOf {g : Graph W} {p : Partition} (hcount : p.length < wordBound32)
    (e : Edge W) : (ofCommunities g p).crosses e = (p.homeOf e == none) := by
  have h := crosses_eq_false_iff (g := g) hcount e
  simp only [← Partition.homeOf_eq_some_iff] at h
  cases hhome : p.homeOf e with
  | none => simpa [hhome] using h
  | some k => simpa [hhome] using h

theorem crossingEdges_eq {g : Graph W} {p : Partition} (hcount : p.length < wordBound32) :
    (ofCommunities g p).crossingEdges g = g.edges.filter fun e => p.homeOf e == none :=
  List.filter_congr fun e _ => crosses_iff_homeOf hcount e

theorem intraEdges_eq {g : Graph W} {p : Partition} (hd : p.Pairwise List.Disjoint) {k : Nat}
    {m : List String} (hm : p[k]? = some m) :
    (clusterOfCommunity g k m).intraEdges = g.edges.filter fun e => p.homeOf e == some k := by
  apply List.filter_congr
  intro e _
  rw [Bool.eq_iff_iff, beq_iff_eq, Partition.homeOf_eq_some_iff_of_disjoint hd]
  simp [hm]

/-- The clusters' own edges, cluster by cluster. -/
theorem map_intraEdges_eq {g : Graph W} {p : Partition} (hd : p.Pairwise List.Disjoint) :
    (ofCommunities g p).clusters.map Cluster.intraEdges =
      (List.range p.length).map fun k => g.edges.filter fun e => p.homeOf e == some k := by
  apply List.ext_getElem
  · simp [ofCommunities]
  · intro k hk hk'
    have hlt : k < p.length := by simpa using hk'
    simp [ofCommunities, intraEdges_eq hd (List.getElem?_eq_getElem hlt)]

theorem edges_perm {g : Graph W} {p : Partition} (hcount : p.length < wordBound32)
    (hd : p.Pairwise List.Disjoint) :
    ((classified g p).clusters.flatMap Cluster.intraEdges ++ (classified g p).interEdges).Perm
      g.edges := by
  have hlt (e : Edge W) (k : Nat) (h : p.homeOf e = some k) : k < p.length :=
    Partition.lt_of_communityOf (Partition.homeOf_eq_some_iff.1 h).1
  rw [List.flatMap_def]
  change (((ofCommunities g p).clusters.map _).flatten ++ (ofCommunities g p).crossingEdges g).Perm _
  rw [map_intraEdges_eq hd, crossingEdges_eq hcount]
  exact flatten_filter_append_perm p.length p.homeOf g.edges fun e _ => hlt e

theorem intraCount_eq_length (c : Clustering W) :
    c.intraCount = (c.clusters.flatMap Cluster.intraEdges).length := by
  rw [List.flatMap_def, ← total_map_length, List.map_map]
  rfl

/-- Communities that share out the nodes make clusters with as many members as there are nodes. -/
theorem total_size_eq {g : Graph W} {p : Partition} (hd : p.Pairwise List.Disjoint)
    (hwithin : p.Within g) (hnodes : g.nodes.Nodup)
    (hcover : ∀ name ∈ g.nodes, ∃ m ∈ p, name ∈ m) :
    total ((ofCommunities g p).clusters.map Cluster.size) = g.nodes.length := by
  have hsizes : total ((ofCommunities g p).clusters.map Cluster.size) =
      (p.flatMap List.eraseDups).length := by
    rw [← flatMap_nodes g p, List.flatMap_def, ← total_map_length, List.map_map]
    rfl
  have hnodup : (p.flatMap List.eraseDups).Nodup := by
    rw [List.nodup_flatMap]
    refine ⟨fun m _ => nodup_eraseDups m, hd.imp fun hdisjoint name hm hm' => ?_⟩
    exact hdisjoint (List.mem_eraseDups.1 hm) (List.mem_eraseDups.1 hm')
  have hmem (name : String) : name ∈ p.flatMap List.eraseDups ↔ name ∈ g.nodes := by
    simp only [List.mem_flatMap, List.mem_eraseDups]
    constructor
    · rintro ⟨m, hm, hname⟩
      exact hwithin m hm name hname
    · exact hcover name
  rw [hsizes, ((List.perm_ext_iff_of_nodup hnodup hnodes).2 hmem).length_eq]

/-- With disjoint communities, every edge position is placed once: in the list of the cluster whose
community has both of the edge's ends, or in the list between the clusters if there is none. All
lists are in graph order, and together they have every edge as often as the graph. If the
communities share out distinct nodes, the clusters' sizes add up to the number of nodes. -/
theorem identifyClusters_tiles [Number W] {g : Graph W} {algorithm : Algorithm} {p : Partition}
    {c : Clustering W} (hcount : p.length < wordBound32) (hd : p.Pairwise List.Disjoint)
    (h : (g.identifyClusters (.precomputed algorithm p)).result = .ok c) :
    (∃ place : Fin g.edges.length → Option Nat,
      (∀ i k, place i = some k ↔
        ∃ m, p[k]? = some m ∧ (g.edges.get i).source ∈ m ∧ (g.edges.get i).target ∈ m) ∧
      (∀ i, place i = none ↔
        ∀ m ∈ p, ¬((g.edges.get i).source ∈ m ∧ (g.edges.get i).target ∈ m)) ∧
      c.clusters.length = p.length ∧
      (∀ k m, p[k]? = some m → ∃ cluster, c.clusters[k]? = some cluster ∧
        cluster.id.toNat = k + 1 ∧ (∀ name, name ∈ cluster.nodes ↔ name ∈ m) ∧
        cluster.intraEdges = g.edgesAt place (some k)) ∧
      c.interEdges = g.edgesAt place none) ∧
    (∀ cluster ∈ c.clusters, cluster.intraEdges.Sublist g.edges) ∧
    c.interEdges.Sublist g.edges ∧
    (c.clusters.flatMap Cluster.intraEdges ++ c.interEdges).Perm g.edges ∧
    c.intraCount + c.interCount = g.edges.length ∧
    (g.nodes.Nodup → (∀ name ∈ g.nodes, ∃ m ∈ p, name ∈ m) →
      total (c.clusters.map Cluster.size) = g.nodes.length) := by
  obtain ⟨q, hq, hwithin, rfl⟩ := identifyClusters_result_eq_ok.1 h
  cases hq
  have hperm := edges_perm (g := g) hcount hd
  refine ⟨⟨fun i => p.homeOf (g.edges.get i), ?_, ?_, ?_, ?_, ?_⟩, ?_, ?_, hperm, ?_, ?_⟩
  · exact fun i k => Partition.homeOf_eq_some_iff_of_disjoint hd
  · exact fun i => Partition.homeOf_eq_none_iff_of_disjoint hd
  · simp [classified, ofCommunities]
  · intro k m hm
    refine ⟨clusterOfCommunity g k m, by simp [classified, ofCommunities, hm], ?_, ?_, ?_⟩
    · have hk := (List.getElem?_eq_some_iff.1 hm).1
      simp only [wordBound32] at hcount
      rw [clusterOfCommunity, UInt32.toNat_ofNat']
      omega
    · exact fun name => List.mem_eraseDups
    · rw [intraEdges_eq hd hm, Graph.filter_eq_edgesAt]
  · exact (crossingEdges_eq hcount).trans (g.filter_eq_edgesAt _ _)
  · intro cluster hcluster
    obtain ⟨k, hk, rfl⟩ := List.mem_mapIdx.1 hcluster
    exact List.filter_sublist
  · exact List.filter_sublist
  · rw [intraCount_eq_length, interCount, ← List.length_append, hperm.length_eq]
  · exact fun hnodes hcover => total_size_eq hd hwithin hnodes hcover

/-- Parallel edges, a loop and a dangling edge among two communities, one of which repeats a name. -/
theorem identifyClusters_tiles_pair :
    let call (s t : String) : Edge Rat := ⟨s, t, .blank, .blank, 1⟩
    let g : Graph Rat := ⟨["A", "B", "C"],
      [call "A" "B", call "B" "C", call "A" "B", call "C" "C", call "A" "Z"]⟩
    let p : Partition := [["B", "A", "B"], ["C"]]
    p.length < wordBound32 ∧ p.Pairwise List.Disjoint ∧
      ∃ c, (g.identifyClusters (.precomputed .louvain p)).result = .ok c ∧
        c.intraCount + c.interCount = 5 ∧ total (c.clusters.map Cluster.size) = 3 := by
  intro call g p
  have hcount : p.length < wordBound32 := by decide
  have hd : p.Pairwise List.Disjoint := by simp [p, List.Disjoint]
  have h : (g.identifyClusters (.precomputed .louvain p)).result = .ok (classified g p) :=
    identifyClusters_result_eq_ok.2 ⟨p, rfl, by simp [p, g, Partition.Within], rfl⟩
  obtain ⟨-, -, -, -, hsum, hsizes⟩ := identifyClusters_tiles hcount hd h
  exact ⟨hcount, hd, _, h, hsum, hsizes (by decide) (by simp [p, g])⟩

end Clustering

end CallClusters
