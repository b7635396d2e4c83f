import CallClusters.Proofs.Analysis.Run
import CallClusters.Proofs.Cluster.Tiling
import CallClusters.Proofs.Page.Drawing
import CallClusters.Proofs.Page.Reading

/-! The page of a graph and the page of its clusters show the same graph when the clusters come from
a division of the nodes. The tiling of the edges carries over to the links, and since no two
clusters share an id, each of them has the colour that stands at its place in the palette. -/

namespace CallClusters

/-! ### Links between communities -/

/-- Nodes of different communities, or a name that is no node. -/
def Partition.Parts {W : Type} (p : Partition) (g : Graph W) (source target : String) : Prop :=
  source ∉ g.nodes ∨ target ∉ g.nodes ∨
    ∃ i j : Fin p.length, i ≠ j ∧ source ∈ p.get i ∧ target ∈ p.get j

namespace Partition.Divides

variable {W : Type} {p : Partition} {g : Graph W}

theorem eq_of_mem (h : p.Divides g) {name : String} {i j : Fin p.length} (hi : name ∈ p.get i)
    (hj : name ∈ p.get j) : i = j :=
  (h.unique name (h.within _ (List.get_mem p i) name hi)).unique hi hj

theorem parts_iff (h : p.Divides g) {source target : String} :
    p.Parts g source target ↔ ∀ m ∈ p, ¬ (source ∈ m ∧ target ∈ m) := by
  constructor
  · rintro hparts m hm ⟨hs, ht⟩
    rcases hparts with hsource | htarget | ⟨i, j, hij, hi, hj⟩
    · exact hsource (h.within m hm _ hs)
    · exact htarget (h.within m hm _ ht)
    · obtain ⟨k, rfl⟩ := List.get_of_mem hm
      exact hij ((h.eq_of_mem hi hs).trans (h.eq_of_mem ht hj))
  · intro hparts
    by_cases hsource : source ∈ g.nodes
    · by_cases htarget : target ∈ g.nodes
      · obtain ⟨i, hi, -⟩ := h.unique source hsource
        obtain ⟨j, hj, -⟩ := h.unique target htarget
        refine .inr (.inr ⟨i, j, ?_, hi, hj⟩)
        rintro rfl
        exact hparts _ (List.get_mem p i) ⟨hi, hj⟩
      · exact .inr (.inl htarget)
    · exact .inl hsource

theorem homeOf_eq_none_iff (h : p.Divides g) {e : Edge W} :
    p.homeOf e = none ↔ p.Parts g e.source e.target := by
  rw [homeOf_eq_none_iff_of_disjoint h.disjoint, h.parts_iff]

end Partition.Divides

/-! ### How nodes and edges are drawn -/

theorem Color.rgba_ne_crossing (r g b : Float) : rgba r g b ≠ crossing := by
  intro h
  have hletters := congrArg String.toList h
  simp only [rgba, String.toList_append] at hletters
  rw [show "rgba(".toList = ['r', 'g', 'b', 'a', '('] by decide,
    show crossing.toList = ['r', 'e', 'd'] by decide] at hletters
  simp at hletters

namespace Clustering

variable {W : Type} {g : Graph W} {p : Partition} {blackSingles : Bool}

/-- No cluster has the colour of the edges between clusters. -/
theorem colorOf_ne_crossing (c : Clustering W) (blackSingles : Bool) (id : UInt32) :
    colorOf (c.palette blackSingles) id ≠ Color.crossing := by
  rcases colorOf_palette c blackSingles id with h | ⟨r, g, b, h⟩
  · rw [h]
    decide
  · rw [h]
    exact Color.rgba_ne_crossing r g b

theorem ids_palette (c : Clustering W) (blackSingles : Bool) :
    (c.palette blackSingles).map Prod.fst = c.clusters.map Cluster.id := by
  apply List.ext_getElem <;> simp [palette]

theorem nodup_ids_palette (hcount : p.length < wordBound32) :
    (((ofCommunities g p).palette blackSingles).map Prod.fst).Nodup := by
  rw [ids_palette, ids_ofCommunities]
  apply List.nodup_range.map_on
  intro i hi j hj hids
  have hsucc := congrArg UInt32.toNat hids
  rw [toNat_id (List.mem_range.1 hi) hcount, toNat_id (List.mem_range.1 hj) hcount] at hsucc
  exact Nat.succ.inj hsucc

theorem colorOf_eq_of_mem {palette : List (UInt32 × String)} (hkeys : (palette.map Prod.fst).Nodup)
    {id : UInt32} {color : String} (hmem : (id, color) ∈ palette) : colorOf palette id = color := by
  have hkeys : (palette.reverse.map Prod.fst).Nodup := by
    rw [List.map_reverse, List.nodup_reverse]
    exact hkeys
  rw [colorOf, (lookup_eq_some_iff_of_nodup hkeys).2 (List.mem_reverse.2 hmem), Option.getD_some]

/-- Every cluster has the colour at its own place in the palette. -/
theorem getElem?_palette_ofCommunities (hcount : p.length < wordBound32) {k : Nat}
    (hk : k < p.length) :
    ((ofCommunities g p).palette blackSingles)[k]? = some (UInt32.ofNat (k + 1),
      colorOf ((ofCommunities g p).palette blackSingles) (UInt32.ofNat (k + 1))) := by
  have hlt : k < ((ofCommunities g p).palette blackSingles).length := by
    simpa [palette, ofCommunities] using hk
  have hid : ((ofCommunities g p).palette blackSingles)[k].1 = UInt32.ofNat (k + 1) := by
    simp [palette, ofCommunities, clusterOfCommunity]
  have hcolor : colorOf ((ofCommunities g p).palette blackSingles)
      ((ofCommunities g p).palette blackSingles)[k].1 =
        ((ofCommunities g p).palette blackSingles)[k].2 :=
    colorOf_eq_of_mem (nodup_ids_palette hcount) (List.getElem_mem hlt)
  rw [List.getElem?_eq_getElem hlt, ← hid, hcolor]

theorem clusterOf_eq_of_mem (h : p.Divides g) {m : List String} {k : Nat} (hm : p[k]? = some m)
    {name : String} (hname : name ∈ m) :
    (ofCommunities g p).clusterOf name = some (clusterOfCommunity g k m) := by
  rw [clusterOf_ofCommunities, h.communityOf_eq_some_iff.2 ⟨m, hm, hname⟩, Option.bind_some, hm]
  rfl

/-- The names on the page are the nodes of the graph. -/
theorem names_network_classified_perm (hnodes : g.nodes.Nodup) (h : p.Divides g) :
    (((classified g p).network blackSingles).nodes.map Network.Node.name).Perm g.nodes := by
  refine names_network_perm.trans ?_
  rw [show (classified g p).clusters = (ofCommunities g p).clusters from rfl, flatMap_nodes,
    List.perm_ext_iff_of_nodup (nodup_eraseDups _) hnodes]
  intro name
  simp only [List.mem_eraseDups, List.mem_flatMap]
  constructor
  · rintro ⟨m, hm, hname⟩
    exact h.within m hm name hname
  · intro hname
    obtain ⟨k, hk, -⟩ := h.unique name hname
    exact ⟨p.get k, List.get_mem p k, hk⟩

/-- How an edge is drawn: in the colour of the cluster with both its ends, or between clusters. -/
def drawnEdge (palette : List (UInt32 × String)) (p : Partition) (e : Edge W) : Network.Link :=
  match p.homeOf e with
  | some k => ⟨e.source, e.target, colorOf palette (UInt32.ofNat (k + 1)), none⟩
  | none => ⟨e.source, e.target, Color.crossing, some "Inter-cluster edge"⟩

/-- Every edge of the graph is drawn once. -/
theorem links_network_perm (hcount : p.length < wordBound32) (hd : p.Pairwise List.Disjoint) :
    ((classified g p).network blackSingles).links.Perm
      (g.edges.map (drawnEdge ((classified g p).palette blackSingles) p)) := by
  have hedges := (edges_perm (g := g) hcount hd).map
    (drawnEdge ((classified g p).palette blackSingles) p)
  refine .trans (.of_eq ?_) hedges
  have hintra : ∀ k ∈ (classified g p).clusters,
      (k.intraEdges.map fun e => (⟨e.source, e.target,
        colorOf ((classified g p).palette blackSingles) k.id, none⟩ : Network.Link)) =
      k.intraEdges.map (drawnEdge ((classified g p).palette blackSingles) p) := by
    intro k hk
    obtain ⟨i, hi, rfl⟩ := List.mem_mapIdx.1 hk
    refine List.map_congr_left fun e he => ?_
    rw [intraEdges_eq hd (List.getElem?_eq_getElem hi), List.mem_filter, beq_iff_eq] at he
    rw [drawnEdge, he.2]
    rfl
  have hinter : ∀ e ∈ (classified g p).interEdges,
      (⟨e.source, e.target, Color.crossing, some "Inter-cluster edge"⟩ : Network.Link) =
        drawnEdge ((classified g p).palette blackSingles) p e := by
    intro e he
    rw [classified, crossingEdges_eq hcount, List.mem_filter, beq_iff_eq] at he
    rw [drawnEdge, he.2]
  rw [List.map_append, List.map_flatMap, ← List.map_congr_left hinter, ← List.flatMap_congr hintra]
  rfl

end Clustering

/-! ### Both pages -/

namespace Network.Link

def ends (l : Network.Link) : String × String := (l.source, l.target)

/-- Drawn as an edge between clusters. -/
def IsCrossing (l : Network.Link) : Prop :=
  l.color = Color.crossing ∧ l.title = some "Inter-cluster edge"

end Network.Link

namespace Clustering

variable {W : Type} {g : Graph W} {p : Partition} {blackSingles : Bool}

/-- The link has both ends in a cluster, and the colour of that cluster, in which both ends are
drawn as well. -/
def DrawnWithin (c : Clustering W) (blackSingles : Bool) (drawn : List Network.Node)
    (l : Network.Link) : Prop :=
  l.color ≠ Color.crossing ∧ l.title = none ∧
    ∃ (k : Nat) (cluster : Cluster W), c.clusters[k]? = some cluster ∧
      l.source ∈ cluster.nodes ∧ l.target ∈ cluster.nodes ∧
      (c.palette blackSingles)[k]? = some (cluster.id, l.color) ∧
      ⟨l.source, l.color⟩ ∈ drawn ∧ ⟨l.target, l.color⟩ ∈ drawn

theorem drawnWithin_of_homeOf (hcount : p.length < wordBound32) (h : p.Divides g) {e : Edge W}
    {k : Nat} (hhome : p.homeOf e = some k) :
    (classified g p).DrawnWithin blackSingles ((classified g p).network blackSingles).nodes
      (drawnEdge ((classified g p).palette blackSingles) p e) := by
  obtain ⟨m, hm, hs, ht⟩ := (Partition.homeOf_eq_some_iff_of_disjoint h.disjoint).1 hhome
  have hk : k < p.length := (List.getElem?_eq_some_iff.1 hm).1
  have hnode (name : String) (hname : name ∈ m) :
      ⟨name, colorOf ((classified g p).palette blackSingles) (UInt32.ofNat (k + 1))⟩ ∈
        ((classified g p).network blackSingles).nodes :=
    mem_nodes_network.2 ⟨_, clusterOf_eq_of_mem h hm hname, rfl⟩
  rw [drawnEdge, hhome]
  refine ⟨colorOf_ne_crossing _ _ _, rfl, k, clusterOfCommunity g k m, ?_, List.mem_eraseDups.2 hs,
    List.mem_eraseDups.2 ht, getElem?_palette_ofCommunities hcount hk, hnode _ hs, hnode _ ht⟩
  simp [classified, ofCommunities, hm]

theorem ends_drawnEdge (palette : List (UInt32 × String)) (p : Partition) (e : Edge W) :
    (drawnEdge palette p e).ends = e.ends := by
  unfold drawnEdge
  split <;> rfl

/-- A link is drawn as one between clusters exactly if its ends are parted, and within one
otherwise. -/
theorem isCrossing_iff (hcount : p.length < wordBound32) (h : p.Divides g) {l : Network.Link}
    (hl : l ∈ ((classified g p).network blackSingles).links) :
    (l.IsCrossing ↔ p.Parts g l.source l.target) ∧
      (¬ l.IsCrossing → (classified g p).DrawnWithin blackSingles
        ((classified g p).network blackSingles).nodes l) := by
  obtain ⟨e, -, rfl⟩ := List.mem_map.1 ((links_network_perm hcount h.disjoint).mem_iff.1 hl)
  obtain ⟨hsource, htarget⟩ :=
    Prod.mk.inj (ends_drawnEdge ((classified g p).palette blackSingles) p e)
  rw [hsource, htarget, ← h.homeOf_eq_none_iff]
  cases hhome : p.homeOf e with
  | none =>
    have hcrossing : (drawnEdge ((classified g p).palette blackSingles) p e).IsCrossing := by
      rw [drawnEdge, hhome]
      exact ⟨rfl, rfl⟩
    exact ⟨iff_of_true hcrossing rfl, fun hnot => absurd hcrossing hnot⟩
  | some k =>
    have hwithin : (classified g p).DrawnWithin blackSingles _ _ :=
      drawnWithin_of_homeOf hcount h hhome
    exact ⟨iff_of_false (fun hcrossing => hwithin.1 hcrossing.1) (Option.some_ne_none k),
      fun _ => hwithin⟩

/-- The links of the two pages have the same ends. -/
theorem ends_network_perm (hcount : p.length < wordBound32) (hd : p.Pairwise List.Disjoint) :
    (g.network.links.map Network.Link.ends).Perm
      (((classified g p).network blackSingles).links.map Network.Link.ends) := by
  have hplain : g.network.links.map Network.Link.ends = g.edges.map Edge.ends := by
    rw [Graph.network, List.map_map]
    rfl
  have hclustered : (g.edges.map (drawnEdge ((classified g p).palette blackSingles) p)).map
      Network.Link.ends = g.edges.map Edge.ends := by
    rw [List.map_map]
    exact List.map_congr_left fun e _ => ends_drawnEdge _ p e
  rw [hplain, ← hclustered]
  exact ((links_network_perm hcount hd).map _).symm

end Clustering

/-- The pages lie in the directory as they were drawn. -/
theorem Job.get?_of_yields_savePages {directory : String} {g : Graph Float} {c : Clustering Float}
    {blackSingles : Bool} {files after : FileTree}
    (h : (savePages directory g c blackSingles).Yields files () after) :
    after.get? (Path.join directory "graph_without_clusters.html") =
        some (.file (.text g.network.page)) ∧
      after.get? (Path.join directory "graph_with_clusters.html") =
        some (.file (.text (c.network blackSingles).page)) := by
  simp only [savePages, yields_then, yields_remark, yields_makeDirectories, exists_eq_left'] at h
  obtain ⟨made, -, plain, hplain, both, hclustered, rfl⟩ := h
  have hfirst := FileTree.get?_of_write? (yields_write.1 hplain)
  have hsecond := FileTree.get?_of_write? (yields_write.1 hclustered)
  have hkept :=
    hclustered.get?_of_avoids (avoids_write (by decide) (by decide) _ _) (by decide) hfirst
  exact ⟨hkept, hsecond⟩

theorem Graph.read?_network {W : Type} (g : Graph W) :
    Network.read? g.network.page = some g.network :=
  Network.read?_page (show '\n' ∉ "Graph without clusters".toList by decide)

theorem Clustering.read?_network {W : Type} (c : Clustering W) (blackSingles : Bool) :
    Network.read? (c.network blackSingles).page = some (c.network blackSingles) :=
  Network.read?_page (show '\n' ∉ "Graph with clusters".toList by decide)

/-- A graph of distinct nodes and the clusters of a division of its nodes are drawn alike. There are
clusters, and their pages are saved as they were drawn. The data on both pages list every node once,
and links between the same ends, each as often as the other. Between clusters are exactly the links
whose ends are nodes of different communities or no nodes at all, and every other link has the colour
of its cluster, as have both its ends. -/
theorem pages_agree {g : Graph Float} {partitioner : Partitioner} {p : Partition}
    (hnodes : g.nodes.Nodup) (hpartition : (partitioner.partition g.adjacency).result = .ok p)
    (hdivides : p.Divides g) (hcount : p.length < wordBound32) :
    ∃ c, (g.identifyClusters partitioner).result = .ok c ∧ ∀ blackSingles,
      (∀ directory files after, (Job.savePages directory g c blackSingles).Yields files () after →
        after.get? (Path.join directory "graph_without_clusters.html") =
            some (.file (.text g.network.page)) ∧
          after.get? (Path.join directory "graph_with_clusters.html") =
            some (.file (.text (c.network blackSingles).page))) ∧
      ∃ plain clustered, Network.read? g.network.page = some plain ∧
        Network.read? (c.network blackSingles).page = some clustered ∧
        (plain.nodes.map Network.Node.name).Perm g.nodes ∧
        (clustered.nodes.map Network.Node.name).Perm g.nodes ∧
        (plain.links.map Network.Link.ends).Perm (clustered.links.map Network.Link.ends) ∧
        ∀ l ∈ clustered.links, (l.IsCrossing ↔ p.Parts g l.source l.target) ∧
          (¬ l.IsCrossing → c.DrawnWithin blackSingles clustered.nodes l) := by
  refine ⟨Clustering.classified g p,
    Clustering.identifyClusters_result_eq_ok.2 ⟨p, hpartition, hdivides.within, rfl⟩, ?_⟩
  intro blackSingles
  refine ⟨fun directory files after => Job.get?_of_yields_savePages, g.network,
    (Clustering.classified g p).network blackSingles, g.read?_network,
    Clustering.read?_network _ _, ?_, ?_, ?_, ?_⟩
  · rw [Graph.network, List.map_map, Graph.names, eraseDups_eq_self hnodes]
    exact .of_eq (List.map_id _)
  · exact Clustering.names_network_classified_perm hnodes hdivides
  · exact Clustering.ends_network_perm hcount hdivides.disjoint
  · exact fun l hl => Clustering.isCrossing_iff hcount hdivides hl

/-- Parallel calls, a loop, a call from one cluster to the other and a dangling one. -/
theorem pages_agree_pair :
    let call (s t : String) : Edge Float := ⟨s, t, .blank, .blank, 1⟩
    let g : Graph Float := ⟨["A", "B", "C"],
      [call "A" "B", call "B" "C", call "A" "B", call "C" "C", call "A" "Z"]⟩
    let p : Partition := [["B", "A", "B"], ["C"]]
    g.nodes.Nodup ∧ (Partitioner.partition (.precomputed .louvain p) g.adjacency).result = .ok p ∧
      p.Divides g ∧ p.length < wordBound32 ∧
      ∃ c after page clustered, (g.identifyClusters (.precomputed .louvain p)).result = .ok c ∧
        (Job.savePages "plot" g c true).Yields ⟨[], #[]⟩ () after ∧
        after.get? "plot/graph_with_clusters.html" = some (.file (.text page)) ∧
        Network.read? page = some clustered ∧
        (clustered.nodes.map Network.Node.name).Perm ["A", "B", "C"] := by
  intro call g p
  have hpartition : (Partitioner.partition (.precomputed .louvain p) g.adjacency).result = .ok p :=
    rfl
  have hdivides : p.Divides g := by
    constructor
    · show ∀ m ∈ p, ∀ name ∈ m, name ∈ ["A", "B", "C"]
      decide
    · show ∀ name ∈ ["A", "B", "C"], ∃ k, name ∈ p.get k ∧ ∀ l, name ∈ p.get l → l = k
      decide
  obtain ⟨c, hc, hpages⟩ := pages_agree (by decide) hpartition hdivides (by decide)
  obtain ⟨hsaved, plain, clustered, -, hread, -, hnames, -⟩ := hpages true
  have hyields : ∃ after, (Job.savePages "plot" g c true).Yields ⟨[], #[]⟩ () after := by
    simp only [Job.savePages, Job.yields_then, Job.yields_remark, Job.yields_makeDirectories,
      exists_eq_left', Job.yields_write]
    exact ⟨_, _, rfl, _, rfl, _, rfl, rfl⟩
  obtain ⟨after, hafter⟩ := hyields
  exact ⟨by decide, hpartition, hdivides, by decide, c, after, _, clustered, hc, hafter,
    (hsaved "plot" _ _ hafter).2, hread, hnames⟩

end CallClusters
