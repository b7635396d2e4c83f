import CallClusters.Proofs.Cluster.Build
import CallClusters.Proofs.Graph.Adjacency
import CallClusters.Proofs.Partition.Components

/-! The clusters of the weakly connected components. The components divide the nodes, and an edge
between nodes never leaves its component: what crosses are the dangling edges. Of all divisions of
the nodes that no edge crosses, this is the finest. -/

namespace CallClusters

variable {W : Type}

/-! ### Components of a graph -/

namespace Graph

variable {g : Graph W}

theorem exists_touching {e : Edge W} (he : e ∈ g.edges) (h : g.dangles e = false) :
    ∃ i j, g.adjacency.Touching i j ∧ g.adjacency.names.get i = e.source ∧
      g.adjacency.names.get j = e.target := by
  obtain ⟨arc, harc⟩ := exists_arcOf h
  have hmem : arc ∈ g.adjacency.arcs := List.mem_filterMap.2 ⟨e, he, harc⟩
  obtain ⟨hsource, htarget⟩ := getElem?_of_arcOf harc
  obtain ⟨hi, hsource⟩ := List.getElem?_eq_some_iff.1 hsource
  obtain ⟨hj, htarget⟩ := List.getElem?_eq_some_iff.1 htarget
  exact ⟨⟨arc.source, hi⟩, ⟨arc.target, hj⟩, ⟨arc, hmem, .inl ⟨rfl, rfl⟩⟩, hsource, htarget⟩

/-- What agrees at the two ends of every edge agrees at positions that touch. -/
theorem eq_of_touching {β : Type} {f : String → β}
    (hf : ∀ e ∈ g.edges, g.dangles e = false → f e.source = f e.target)
    {i j : Fin g.adjacency.names.length} (h : g.adjacency.Touching i j) :
    f (g.adjacency.names.get i) = f (g.adjacency.names.get j) := by
  obtain ⟨arc, harc, hends⟩ := h
  obtain ⟨e, he, harc⟩ := List.mem_filterMap.1 harc
  have hedge := hf e he (dangles_of_arcOf harc)
  obtain ⟨hsource, htarget⟩ := getElem?_of_arcOf harc
  have hget (k : Fin g.adjacency.names.length) {n : Nat} {name : String} (hk : n = k)
      (hname : g.names[n]? = some name) : g.adjacency.names.get k = name := by
    subst hk
    exact (List.getElem?_eq_some_iff.1 hname).2
  rcases hends with ⟨hi, hj⟩ | ⟨hj, hi⟩
  · rw [hget i hi hsource, hget j hj htarget, hedge]
  · rw [hget i hi htarget, hget j hj hsource, hedge]

theorem eq_of_connected {β : Type} {f : String → β}
    (hf : ∀ e ∈ g.edges, g.dangles e = false → f e.source = f e.target)
    {i j : Fin g.adjacency.names.length} (h : g.adjacency.Connected i j) :
    f (g.adjacency.names.get i) = f (g.adjacency.names.get j) := by
  induction h with
  | refl => rfl
  | tail _ htouching ih => exact ih.trans (eq_of_touching hf htouching)

/-- So it agrees on each component. -/
theorem eq_of_mem_component {β : Type} {f : String → β}
    (hf : ∀ e ∈ g.edges, g.dangles e = false → f e.source = f e.target)
    {group : List String} (hgroup : group ∈ g.adjacency.components) {x y : String}
    (hx : x ∈ group) (hy : y ∈ group) : f x = f y := by
  have hnames {name : String} (h : name ∈ group) : name ∈ g.adjacency.names :=
    g.adjacency.flatten_components_perm.mem_iff.1 (List.mem_flatten.2 ⟨group, hgroup, h⟩)
  obtain ⟨i, rfl⟩ := List.mem_iff_get.1 (hnames hx)
  obtain ⟨j, rfl⟩ := List.mem_iff_get.1 (hnames hy)
  exact eq_of_connected hf
    ((Adjacency.mem_component_both g.nodup_names i j).1 ⟨group, hgroup, hx, hy⟩)

theorem exists_component_of_edge {e : Edge W} (he : e ∈ g.edges) (h : g.dangles e = false) :
    ∃ group ∈ g.adjacency.components, e.source ∈ group ∧ e.target ∈ group := by
  obtain ⟨i, j, htouching, hsource, htarget⟩ := exists_touching he h
  rw [← hsource, ← htarget]
  exact (Adjacency.mem_component_both g.nodup_names i j).2 (.single htouching)

end Graph

namespace Partition

/-- Communities that share out the names of a graph divide its nodes. -/
theorem divides_of_perm {p : Partition} {g : Graph W} (h : p.flatten.Perm g.names) :
    p.Divides g where
  within m hm name hname :=
    Graph.mem_names.1 (h.mem_iff.1 (List.mem_flatten.2 ⟨m, hm, hname⟩))
  unique name hname := by
    obtain ⟨m, hm, hmem⟩ := List.mem_flatten.1 (h.mem_iff.2 (Graph.mem_names.2 hname))
    obtain ⟨k, rfl⟩ := List.mem_iff_get.1 hm
    have hdisjoint := (List.nodup_flatten.1 (h.nodup_iff.2 g.nodup_names)).2
    rw [List.pairwise_iff_getElem] at hdisjoint
    refine ⟨k, hmem, fun l hl => ?_⟩
    by_contra hne
    rcases Nat.lt_or_gt_of_ne (fun heq => hne (Fin.ext heq)) with hlt | hlt
    · exact hdisjoint l k l.isLt k.isLt hlt hl hmem
    · exact hdisjoint k l k.isLt l.isLt hlt hmem hl

theorem divides_components (g : Graph W) : Divides g.adjacency.components g :=
  divides_of_perm g.adjacency.flatten_components_perm

end Partition

/-- The event tells of an edge that has no place in the adjacency. -/
def Event.skipsEdge : Event W → Bool
  | .edgeSkipped .. => true
  | _ => false

/-- The event tells of a name that is in no cluster. -/
def Event.missesCluster : Event W → Bool
  | .clusterNotFound _ => true
  | _ => false

namespace Clustering

variable {g : Graph W} {p : Partition}

/-! ### Clusters of a division -/

theorem missingEvents_eq (h : p.Divides g) (name : String) :
    (ofCommunities g p).missingEvents name =
      if g.contains name then [] else [.clusterNotFound name] := by
  unfold missingEvents
  by_cases hname : name ∈ g.nodes
  · obtain ⟨k, hk⟩ := h.exists_communityOf hname
    obtain ⟨cluster, hcluster, -⟩ := exists_clusterOf (g := g) hk
    simp [hcluster, Graph.contains, hname]
  · simp [clusterOf_eq_none (h.communityOf_eq_none hname), Graph.contains, hname]

/-- Every end that is no node is reported, each time it comes. -/
theorem crossingEvents_eq (h : p.Divides g) :
    (ofCommunities g p).crossingEvents g =
      ((g.edges.flatMap fun e => [e.source, e.target]).filter fun name => !g.contains name).map
        .clusterNotFound := by
  rw [crossingEvents, List.filter_flatMap, List.map_flatMap]
  congr 1
  funext e
  rw [missingEvents_eq h, missingEvents_eq h]
  cases hsource : g.contains e.source <;> cases htarget : g.contains e.target <;>
    simp [hsource, htarget]

theorem filter_missing_eq_nil (h : ∀ e ∈ g.edges, g.dangles e = false) :
    ((g.edges.flatMap fun e => [e.source, e.target]).filter fun name => !g.contains name) = [] := by
  rw [List.filter_eq_nil_iff]
  intro name hname
  obtain ⟨e, he, hname⟩ := List.mem_flatMap.1 hname
  obtain ⟨hsource, htarget⟩ := Graph.dangles_eq_false_iff.1 (h e he)
  rcases List.mem_pair.1 hname with rfl | rfl
  · simp [Graph.contains, hsource]
  · simp [Graph.contains, htarget]

/-! ### Clusters of the components -/

theorem flatMap_nodes_components (g : Graph W) :
    (ofCommunities g g.adjacency.components).clusters.flatMap Cluster.nodes =
      g.adjacency.components.flatten := by
  have hnodup := (g.adjacency.flatten_components_perm.nodup_iff.2 g.nodup_names)
  have hself : ∀ m ∈ g.adjacency.components, m.eraseDups = id m :=
    fun m hm => eraseDups_eq_self ((List.nodup_flatten.1 hnodup).1 m hm)
  rw [flatMap_nodes, List.flatMap_def, List.map_congr_left hself, List.map_id]

/-- An edge crosses between the components only where an end is no node. The ids may wrap around
here, since the ends of any other edge are even in one cluster. -/
theorem crosses_components {e : Edge W} (he : e ∈ g.edges) :
    (ofCommunities g g.adjacency.components).crosses e = g.dangles e := by
  have hdivides := Partition.divides_components g
  cases h : g.dangles e with
  | false =>
    obtain ⟨group, hgroup, hsource, htarget⟩ := Graph.exists_component_of_edge he h
    obtain ⟨k, hk⟩ := hdivides.communityOf_eq_of_mem hgroup
    exact crosses_of_communityOf_eq (hk _ hsource) (hk _ htarget)
  | true =>
    apply crosses_of_communityOf_eq_none
    exact (Graph.dangles_eq_true_iff.1 h).imp hdivides.communityOf_eq_none
      hdivides.communityOf_eq_none

theorem crossingEdges_components (g : Graph W) :
    (ofCommunities g g.adjacency.components).crossingEdges g = g.edges.filter g.dangles :=
  List.filter_congr fun _ he => crosses_components he

variable [Number W]

/-- The run has a result for every graph. The clusters' members are the distinct names of the nodes,
each once, and the edges between the clusters are the dangling ones. One report is made on each of
them, and one on each end that is no node; where no edge dangles, there is no warning. -/
theorem identifyClusters_connectedComponents (g : Graph W) :
    ∃ events c, g.identifyClusters .connectedComponents = ⟨events, .ok c⟩ ∧
      (c.clusters.flatMap Cluster.nodes).Nodup ∧
      (∀ name, name ∈ c.clusters.flatMap Cluster.nodes ↔ name ∈ g.nodes) ∧
      c.interEdges = g.edges.filter g.dangles ∧
      events.filter Event.skipsEdge = g.adjacencyEvents ∧
      g.adjacencyEvents = c.interEdges.map (fun e =>
        .edgeSkipped e.source e.target "endpoint is not a node of the graph") ∧
      events.filter Event.missesCluster =
        ((g.edges.flatMap fun e => [e.source, e.target]).filter fun name =>
          !g.contains name).map .clusterNotFound ∧
      ((∀ e ∈ g.edges, g.dangles e = false) →
        c.interEdges = [] ∧ ∀ event ∈ events, event.isWarning = false) := by
  have hdivides := Partition.divides_components g
  have hnames := g.adjacency.flatten_components_perm
  have hinter := crossingEdges_components g
  refine ⟨_, _, identifyClusters_of_within rfl hdivides.within, ?_, fun name => ?_, hinter, ?_, ?_,
    ?_, fun hattached => ?_⟩
  · change ((ofCommunities g g.adjacency.components).clusters.flatMap Cluster.nodes).Nodup
    rw [flatMap_nodes_components]
    exact hnames.nodup_iff.2 g.nodup_names
  · change name ∈ (ofCommunities g g.adjacency.components).clusters.flatMap Cluster.nodes ↔ _
    rw [flatMap_nodes_components, hnames.mem_iff]
    exact Graph.mem_names
  · rw [crossingEvents_eq hdivides]
    simp [Graph.adjacencyEvents, Event.skipsEdge, List.filter_map, Function.comp_def]
  · exact congrArg _ hinter.symm
  · rw [crossingEvents_eq hdivides]
    simp [Graph.adjacencyEvents, Event.missesCluster, List.filter_map, Function.comp_def]
  · have hnone : g.edges.filter g.dangles = [] := Graph.filter_dangles_eq_nil hattached
    refine ⟨hinter.trans hnone, ?_⟩
    rw [crossingEvents_eq hdivides, filter_missing_eq_nil hattached, Graph.adjacencyEvents, hnone]
    simp [Event.isWarning]

/-- Two components, of which one has a loop, and a name that is listed twice. -/
theorem identifyClusters_connectedComponents_attached :
    let call (s t : String) : Edge Rat := ⟨s, t, .blank, .blank, 1⟩
    let g : Graph Rat := ⟨["A", "B", "A", "C"], [call "B" "A", call "C" "C", call "B" "A"]⟩
    (∀ e ∈ g.edges, g.dangles e = false) ∧
      ∃ events c, g.identifyClusters .connectedComponents = ⟨events, .ok c⟩ ∧
        c.interEdges = [] ∧ ∀ event ∈ events, event.isWarning = false := by
  intro call g
  have hattached : ∀ e ∈ g.edges, g.dangles e = false := by decide
  obtain ⟨events, c, hrun, -, -, -, -, -, -, hquiet⟩ := identifyClusters_connectedComponents g
  exact ⟨hattached, events, c, hrun, hquiet hattached⟩

/-! ### The finest division -/

omit [Number W] in
/-- A division that keeps the ends of every edge together keeps every component together. -/
theorem exists_community_of_component (hp : p.Divides g)
    (hends : ∀ e ∈ g.edges, p.communityOf e.source = p.communityOf e.target) {group : List String}
    (hgroup : group ∈ g.adjacency.components) : ∃ m ∈ p, ∀ name ∈ group, name ∈ m := by
  have hne : group ≠ [] := fun hnil => g.adjacency.nil_not_mem_components (hnil ▸ hgroup)
  obtain ⟨first, hfirst⟩ := List.exists_mem_of_ne_nil group hne
  obtain ⟨k, hk⟩ := hp.exists_communityOf
    ((Partition.divides_components g).within group hgroup first hfirst)
  have hlt := Partition.lt_of_communityOf hk
  refine ⟨p[k], List.getElem_mem hlt, fun name hname => ?_⟩
  have hsame : p.communityOf name = p.communityOf first :=
    Graph.eq_of_mem_component (fun e he _ => hends e he) hgroup hname hfirst
  exact Partition.mem_of_communityOf (hsame.trans hk) (List.getElem?_eq_getElem hlt)

omit [Number W] in
theorem crossingEdges_eq_nil_iff (hcount : p.length < wordBound32) (hp : p.Divides g)
    (hattached : ∀ e ∈ g.edges, g.dangles e = false) :
    (ofCommunities g p).crossingEdges g = [] ↔
      ∀ group ∈ g.adjacency.components, ∃ m ∈ p, ∀ name ∈ group, name ∈ m := by
  simp only [crossingEdges, List.filter_eq_nil_iff, Bool.not_eq_true, crosses_eq_false_iff hcount]
  constructor
  · intro h group hgroup
    refine exists_community_of_component hp (fun e he => ?_) hgroup
    obtain ⟨k, hsource, htarget⟩ := h e he
    exact hsource.trans htarget.symm
  · intro h e he
    obtain ⟨group, hgroup, hsource, htarget⟩ := Graph.exists_component_of_edge he (hattached e he)
    obtain ⟨m, hm, hsub⟩ := h group hgroup
    obtain ⟨k, hk⟩ := hp.communityOf_eq_of_mem hm
    exact ⟨k, hk _ (hsub _ hsource), hk _ (hsub _ htarget)⟩

/-- A division of the nodes is crossed by no edge exactly when every component lies within one of
its communities. The components are such a division themselves, and so they are the finest one. -/
theorem interEdges_eq_nil_iff_refined (algorithm : Algorithm) (hcount : p.length < wordBound32)
    (hp : p.Divides g) (hattached : ∀ e ∈ g.edges, g.dangles e = false) :
    ∃ groups c, Partitioner.connectedComponents.partition g.adjacency = ⟨[], .ok groups⟩ ∧
      (g.identifyClusters (.precomputed algorithm p)).result = .ok c ∧
      (c.interEdges = [] ↔ ∀ group ∈ groups, ∃ m ∈ p, ∀ name ∈ group, name ∈ m) ∧
      groups.Divides g ∧
      ∃ finest, (g.identifyClusters .connectedComponents).result = .ok finest ∧
        finest.interEdges = [] := by
  have hdivides := Partition.divides_components g
  have hfinest := (crossingEdges_components g).trans (Graph.filter_dangles_eq_nil hattached)
  exact ⟨g.adjacency.components, classified g p, rfl,
    identifyClusters_result_eq_ok.2 ⟨p, rfl, hp.within, rfl⟩,
    crossingEdges_eq_nil_iff hcount hp hattached, hdivides,
    _, identifyClusters_result_eq_ok.2 ⟨_, rfl, hdivides.within, rfl⟩, hfinest⟩

/-- Two communities, of which one has two components. -/
theorem interEdges_eq_nil_iff_refined_merged :
    let call (s t : String) : Edge Rat := ⟨s, t, .blank, .blank, 1⟩
    let g : Graph Rat := ⟨["A", "B", "C", "D"], [call "C" "A", call "D" "D"]⟩
    let p : Partition := [["D", "C", "A"], ["B"]]
    p.length < wordBound32 ∧ p.Divides g ∧ (∀ e ∈ g.edges, g.dangles e = false) ∧
      ∃ groups : Partition,
        Partitioner.connectedComponents.partition g.adjacency = ⟨[], .ok groups⟩ ∧
        ∀ group ∈ groups, ∃ m ∈ p, ∀ name ∈ group, name ∈ m := by
  intro call g p
  have hcount : p.length < wordBound32 := by decide
  have hp : p.Divides g := Partition.divides_of_perm (by decide)
  have hattached : ∀ e ∈ g.edges, g.dangles e = false := by decide
  obtain ⟨groups, c, hgroups, hc, hiff, -⟩ :=
    interEdges_eq_nil_iff_refined .infomap hcount hp hattached
  obtain ⟨_, hq, -, rfl⟩ := identifyClusters_result_eq_ok.1 hc
  cases hq
  exact ⟨hcount, hp, hattached, groups, hgroups, hiff.1 (by decide)⟩

end Clustering

end CallClusters
