import CallClusters.Proofs.Cluster.Tiling
import CallClusters.Proofs.Graph.Adjacency
import CallClusters.Proofs.Number

/-! Modularity beside the clusters. Both give a name to the first community that lists it: modularity
by its table, and the clusters by a scan. So the weight that modularity finds within a community is
that of the edges which do not cross and have their ends in this community's cluster, and modularity
can be computed from the clusters. -/

namespace CallClusters

open CallClusters.Graph Adjacency

variable {W : Type}

/-! ### Communities in the adjacency -/

namespace Graph

variable {g : Graph W} {p : Partition}

theorem communityAt_index {i : Nat} {name : String} (h : g.adjacency.names[i]? = some name) :
    g.adjacency.communityAt p.index i = p.communityOf name := by
  rw [communityAt, h, Option.bind_some, Partition.lookup_index]

/-- An arc has its ends in the communities of the edge's ends. -/
theorem source_place {e : Edge W} {arc : Arc W} (h : arcOf g.names e = some arc) :
    (g.adjacency.place p.index arc).source = p.communityOf e.source :=
  communityAt_index (getElem?_of_arcOf h).1

theorem target_place {e : Edge W} {arc : Arc W} (h : arcOf g.names e = some arc) :
    (g.adjacency.place p.index arc).target = p.communityOf e.target :=
  communityAt_index (getElem?_of_arcOf h).2

theorem isInside_place {e : Edge W} {arc : Arc W} (h : arcOf g.names e = some arc) (k : Nat) :
    (g.adjacency.place p.index arc).isInside k = (p.homeOf e == some k) := by
  rw [Bool.eq_iff_iff, beq_iff_eq, Partition.homeOf_eq_some_iff, Placed.isInside, source_place h,
    target_place h, Bool.and_eq_true, beq_iff_eq, beq_iff_eq]

/-- An edge without an arc has an end that is no node, and a community lists nodes only. -/
theorem homeOf_of_arcOf_eq_none (hwithin : p.Within g) {e : Edge W}
    (h : arcOf g.names e = none) (k : Nat) : p.homeOf e ≠ some k := by
  intro hhome
  obtain ⟨hsource, htarget⟩ := Partition.homeOf_eq_some_iff.1 hhome
  have hnode {name : String} (hname : p.communityOf name = some k) : name ∈ g.nodes := by
    obtain ⟨⟨m, hm, hmem⟩, -⟩ := Partition.communityOf_eq_some_iff.1 hname
    exact hwithin m (List.mem_of_getElem? hm) name hmem
  obtain ⟨arc, harc⟩ := exists_arcOf (dangles_eq_false_iff.2 ⟨hnode hsource, hnode htarget⟩)
  rw [h] at harc
  cases harc

/-- A condition on arcs picks the same weights, in graph order, as one on edges that agrees with it and
fails for the edges without an arc. -/
theorem map_weight_filter_place {s : Placed W → Bool} {q : Edge W → Bool}
    (hsome : ∀ e arc, arcOf g.names e = some arc → s (g.adjacency.place p.index arc) = q e)
    (hnone : ∀ e, arcOf g.names e = none → q e = false) :
    ((g.adjacency.arcs.map (g.adjacency.place p.index)).filter s).map Placed.weight =
      (g.edges.filter q).map Edge.weight := by
  change (((g.edges.filterMap (arcOf g.names)).map _).filter _).map _ = _
  induction g.edges with
  | nil => rfl
  | cons e edges ih =>
    cases harc : arcOf g.names e with
    | none =>
      rw [List.filterMap_cons_none harc, List.filter_cons_of_neg (by simp [hnone e harc])]
      exact ih
    | some arc =>
      rw [List.filterMap_cons_some harc, List.map_cons, List.filter_cons, List.filter_cons,
        hsome e arc harc]
      cases q e with
      | true => exact congrArg₂ List.cons (weight_of_arcOf harc) ih
      | false => exact ih

end Graph

namespace Clustering

/-! ### Communities in the clusters -/

/-- The id of the cluster of a name. -/
def idOf? (c : Clustering W) (name : String) : Option Nat :=
  (c.clusterOf name).map fun k => k.id.toNat

/-- The edge has both of its ends in the cluster with this id, and does not cross. -/
def keeps (c : Clustering W) (id : Nat) (e : Edge W) : Bool :=
  !c.crosses e && c.idOf? e.source == some id && c.idOf? e.target == some id

/-- The edge is one between nodes, and has this end in the cluster with this id. -/
def touches (c : Clustering W) (g : Graph W) (endpoint : Edge W → String) (id : Nat) (e : Edge W) :
    Bool :=
  !g.dangles e && c.idOf? (endpoint e) == some id

/-- What the cluster with this id has in modularity. -/
def share [Number W] (c : Clustering W) (g : Graph W) (id : Nat) : W :=
  let total := g.adjacency.totalWeight
  let weigh (s : Edge W → Bool) : W := Number.tally ((g.edges.filter s).map Edge.weight)
  weigh (c.keeps id) / total -
    weigh (c.touches g Edge.source id) * weigh (c.touches g Edge.target id) / (total * total)

/-- Modularity by the clusters that the edges of a graph have their ends in. -/
def modularity [Number W] (c : Clustering W) (g : Graph W) : W :=
  if Number.isZero g.adjacency.totalWeight then Number.ofNat 0
  else Number.sum (c.clusters.map fun k => c.share g k.id.toNat)

theorem clusterOf_eq_none_iff {g : Graph W} {p : Partition} {name : String} :
    (ofCommunities g p).clusterOf name = none ↔ p.communityOf name = none := by
  refine ⟨fun h => ?_, clusterOf_eq_none⟩
  cases hname : p.communityOf name with
  | none => rfl
  | some k =>
    obtain ⟨cluster, hcluster, -⟩ := exists_clusterOf (g := g) hname
    rw [h] at hcluster
    cases hcluster

section Ids
variable {g : Graph W} {p : Partition} (hcount : p.length < wordBound32)
include hcount

/-- As long as the ids do not wrap around, they count the communities from one. -/
theorem idOf?_ofCommunities (name : String) :
    (ofCommunities g p).idOf? name = (p.communityOf name).map (· + 1) := by
  cases h : p.communityOf name with
  | none => rw [idOf?, clusterOf_eq_none h, Option.map_none, Option.map_none]
  | some k =>
    obtain ⟨cluster, hcluster, hid⟩ := exists_clusterOf (g := g) h
    rw [idOf?, hcluster, Option.map_some, Option.map_some, hid,
      toNat_id (Partition.lt_of_communityOf h) hcount]

theorem idOf?_eq_some_iff (name : String) (k : Nat) :
    (ofCommunities g p).idOf? name = some (k + 1) ↔ p.communityOf name = some k := by
  rw [idOf?_ofCommunities hcount, Option.map_eq_some_iff]
  simp

/-- An edge at home in a community is one that its cluster keeps. -/
theorem keeps_eq (k : Nat) (e : Edge W) :
    (ofCommunities g p).keeps (k + 1) e = (p.homeOf e == some k) := by
  rw [Bool.eq_iff_iff, keeps, Bool.and_eq_true, Bool.and_eq_true, Bool.not_eq_true', beq_iff_eq,
    beq_iff_eq, beq_iff_eq, idOf?_eq_some_iff hcount, idOf?_eq_some_iff hcount, and_assoc,
    ← Partition.homeOf_eq_some_iff, crosses_iff_homeOf hcount]
  constructor
  · exact fun h => h.2
  · exact fun h => ⟨by rw [h]; rfl, h⟩

/-- Community by community, these are all the edges that do not cross. -/
theorem flatten_filter_keeps_perm :
    ((List.range p.length).map fun k =>
        g.edges.filter ((ofCommunities g p).keeps (k + 1))).flatten.Perm
      (g.edges.filter fun e => !(ofCommunities g p).crosses e) := by
  have hhome := flatten_filter_append_perm p.length p.homeOf g.edges fun e _ k hk =>
    Partition.lt_of_communityOf (Partition.homeOf_eq_some_iff.1 hk).1
  have hkept := List.filter_append_perm (fun e => !(ofCommunities g p).crosses e) g.edges
  simp only [Bool.not_not, crosses_iff_homeOf hcount] at hkept
  have hkeeps (k : Nat) : (ofCommunities g p).keeps (k + 1) = fun e => p.homeOf e == some k :=
    funext (keeps_eq hcount k)
  simp only [hkeeps, crosses_iff_homeOf hcount]
  exact (List.perm_append_right_iff _).1 (hhome.trans hkept.symm)

/-- An end of an edge is in a community if it is in the cluster of that community. -/
theorem touches_eq (endpoint : Edge W → String) (k : Nat) (e : Edge W) :
    (ofCommunities g p).touches g endpoint (k + 1) e =
      (!g.dangles e && p.communityOf (endpoint e) == some k) := by
  rw [touches, Bool.eq_iff_iff, Bool.and_eq_true, Bool.and_eq_true, beq_iff_eq, beq_iff_eq,
    idOf?_eq_some_iff hcount]

section Weights
variable [Number W]

theorem internalWeight_eq (hwithin : p.Within g) (k : Nat) :
    internalWeight (g.adjacency.arcs.map (g.adjacency.place p.index)) k =
      Number.tally ((g.edges.filter ((ofCommunities g p).keeps (k + 1))).map Edge.weight) := by
  rw [internalWeight, map_weight_filter_place (q := (ofCommunities g p).keeps (k + 1))]
  · intro e arc harc
    rw [isInside_place harc, keeps_eq hcount]
  · intro e hnone
    rw [keeps_eq hcount, beq_eq_false_iff_ne]
    exact homeOf_of_arcOf_eq_none hwithin hnone k

/-- What is added up by the community of one end. -/
theorem tally_touches {community : Placed W → Option Nat} {endpoint : Edge W → String}
    (hplace : ∀ e arc, arcOf g.names e = some arc →
      community (g.adjacency.place p.index arc) = p.communityOf (endpoint e)) (k : Nat) :
    Number.tally (((g.adjacency.arcs.map (g.adjacency.place p.index)).filter
        fun arc => community arc == some k).map Placed.weight) =
      Number.tally ((g.edges.filter ((ofCommunities g p).touches g endpoint (k + 1))).map
        Edge.weight) := by
  rw [map_weight_filter_place (q := (ofCommunities g p).touches g endpoint (k + 1))]
  · intro e arc harc
    rw [touches_eq hcount, hplace e arc harc, dangles_of_arcOf harc, Bool.not_false, Bool.true_and]
  · intro e hnone
    rw [touches_eq hcount, arcOf_eq_none_iff.1 hnone, Bool.not_true, Bool.false_and]

theorem outWeight_eq (k : Nat) :
    outWeight (g.adjacency.arcs.map (g.adjacency.place p.index)) k =
      Number.tally ((g.edges.filter ((ofCommunities g p).touches g Edge.source (k + 1))).map
        Edge.weight) :=
  tally_touches hcount (fun _ _ => source_place) k

theorem inWeight_eq (k : Nat) :
    inWeight (g.adjacency.arcs.map (g.adjacency.place p.index)) k =
      Number.tally ((g.edges.filter ((ofCommunities g p).touches g Edge.target (k + 1))).map
        Edge.weight) :=
  tally_touches hcount (fun _ _ => target_place) k

/-- Summand by summand, both find the same weights. -/
theorem modularity_eq (hwithin : p.Within g) :
    g.adjacency.modularity p = (ofCommunities g p).modularity g := by
  have hshares : (ofCommunities g p).clusters.map (fun k => (ofCommunities g p).share g k.id.toNat) =
      (List.range p.length).map fun k => (ofCommunities g p).share g (k + 1) := by
    have hids := congrArg (List.map fun id => (ofCommunities g p).share g id.toNat)
      (ids_ofCommunities g p)
    rw [List.map_map, List.map_map] at hids
    refine hids.trans (List.map_congr_left fun k hk => ?_)
    rw [Function.comp_apply, toNat_id (List.mem_range.1 hk) hcount]
  rw [modularity, hshares]
  simp only [Adjacency.modularity, share, internalWeight_eq hcount hwithin, outWeight_eq hcount,
    inWeight_eq hcount]

end Weights

end Ids

theorem sum_internalWeight {g : Graph Rat} {p : Partition} (hcount : p.length < wordBound32)
    (hwithin : p.Within g) :
    Number.sum ((List.range p.length).map
        (internalWeight (g.adjacency.arcs.map (g.adjacency.place p.index)))) =
      Number.sum ((g.edges.filter fun e => !(ofCommunities g p).crosses e).map Edge.weight) := by
  have hperm := (flatten_filter_keeps_perm (g := g) hcount).map Edge.weight
  rw [List.map_flatten, List.map_map] at hperm
  rw [Number.sum_eq, Number.sum_eq, ← hperm.sum_eq, List.sum_flatten, List.map_map]
  congr 1
  apply List.map_congr_left
  intro k _
  rw [internalWeight_eq hcount hwithin, Number.tally_eq]
  rfl

/-- Where clusters can be built, modularity has every node in the community that its cluster's id
counts, and the edges that it adds to a community's weight are those which do not cross and have both
ends in that community's cluster. So modularity is what it is by the clusters, and in exact arithmetic
all internal weights together are the weight of the edges that do not cross. -/
theorem modularity_agrees_with_clusters [Number W] {p : Partition}
    (hcount : p.length < wordBound32) :
    (∀ (g : Graph W) (c : Clustering W), (ofPartition g p).result = .ok c →
      (∀ name ∈ g.nodes, ∃ i : Nat, g.adjacency.names[i]? = some name) ∧
      (∀ (i : Nat) (name : String), g.adjacency.names[i]? = some name →
        (∀ k, g.adjacency.communityAt p.index i = some k ↔ c.idOf? name = some (k + 1)) ∧
        (g.adjacency.communityAt p.index i = none ↔ c.clusterOf name = none)) ∧
      (∀ e ∈ g.edges, ∀ k,
        (∃ arc, arcOf g.names e = some arc ∧
          (g.adjacency.place p.index arc).isInside k = true) ↔
        e ∉ c.crossingEdges g ∧ c.idOf? e.source = some (k + 1) ∧ c.idOf? e.target = some (k + 1)) ∧
      (∀ k, internalWeight (g.adjacency.arcs.map (g.adjacency.place p.index)) k =
        Number.tally ((g.edges.filter (c.keeps (k + 1))).map Edge.weight)) ∧
      g.adjacency.modularity p = c.modularity g) ∧
    ∀ (g : Graph Rat) (c : Clustering Rat), (ofPartition g p).result = .ok c →
      Number.sum ((List.range p.length).map
          (internalWeight (g.adjacency.arcs.map (g.adjacency.place p.index)))) =
        Number.sum ((g.edges.filter fun e => !c.crosses e).map Edge.weight) := by
  refine ⟨fun g c h => ?_, fun g c h => ?_⟩
  · obtain ⟨hwithin, rfl⟩ := ofPartition_result_eq_ok.1 h
    refine ⟨fun name hname => ?_, fun i name hname => ?_, fun e he k => ?_,
      internalWeight_eq hcount hwithin, modularity_eq hcount hwithin⟩
    · exact List.mem_iff_getElem?.1 (mem_names.2 hname)
    · rw [communityAt_index hname]
      exact ⟨fun k => (idOf?_eq_some_iff hcount name k).symm,
        clusterOf_eq_none_iff.symm⟩
    · have hkeeps := keeps_eq (g := g) hcount k e
      rw [Bool.eq_iff_iff, keeps] at hkeeps
      simp only [crossingEdges, List.mem_filter, he, true_and, Bool.not_eq_true]
      simp only [Bool.and_eq_true, Bool.not_eq_true', beq_iff_eq, and_assoc] at hkeeps
      rw [hkeeps]
      constructor
      · rintro ⟨arc, harc, hinside⟩
        rwa [isInside_place harc, beq_iff_eq] at hinside
      · intro hhome
        cases harc : arcOf g.names e with
        | none => exact absurd hhome (homeOf_of_arcOf_eq_none hwithin harc k)
        | some arc => exact ⟨arc, rfl, by rw [isInside_place harc, beq_iff_eq, hhome]⟩
  · obtain ⟨hwithin, rfl⟩ := ofPartition_result_eq_ok.1 h
    exact sum_internalWeight hcount hwithin

/-- Two communities share a name, a node is in neither, and an edge dangles. -/
theorem modularity_agrees_with_clusters_overlap :
    let call (s t : String) (w : Rat) : Edge Rat := ⟨s, t, .blank, .blank, w⟩
    let g : Graph Rat := ⟨["A", "B", "C", "D"],
      [call "A" "B" 2, call "B" "C" 3, call "C" "C" 5, call "D" "A" 7, call "A" "Z" 11]⟩
    let p : Partition := [["A", "B", "A"], [], ["B", "C"]]
    p.length < wordBound32 ∧
      (∃ c, (ofPartition g p).result = .ok c ∧ g.adjacency.modularity p = c.modularity g) ∧
      g.adjacency.communityAt p.index 1 = some 0 ∧
      Number.sum ((List.range p.length).map
        (internalWeight (g.adjacency.arcs.map (g.adjacency.place p.index)))) = 7 := by
  intro call g p
  have hcount : p.length < wordBound32 := by decide
  have h : (ofPartition g p).result = .ok (ofCommunities g p) :=
    ofPartition_result_eq_ok.2 ⟨by simp [p, g, Partition.Within], rfl⟩
  obtain ⟨hnodes, hsum⟩ := modularity_agrees_with_clusters (W := Rat) hcount
  refine ⟨hcount, ⟨_, h, (hnodes g _ h).2.2.2.2⟩, ?_, (hsum g _ h).trans (by decide +kernel)⟩
  exact (((hnodes g _ h).2.1 1 "B" (by decide)).1 0).2 (by decide)

end Clustering

end CallClusters
