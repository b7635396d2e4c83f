import CallClusters.Cluster.Crossing
import CallClusters.Proofs.Distinct
import CallClusters.Proofs.Fault
import CallClusters.Proofs.Partition.Communities
import CallClusters.Proofs.Traced
import CallClusters.Word

/-! The clusters that a partition makes: when they are made, and which cluster a name falls into.
A partition makes them exactly when it lists nodes only, and a name falls into the cluster of the
first community that lists it. In a division of the nodes no other community lists it. -/

namespace CallClusters

variable {W : Type}

/-- Every listed name is a node of the graph. -/
def Partition.Within (p : Partition) (g : Graph W) : Prop := ∀ m ∈ p, ∀ name ∈ m, name ∈ g.nodes

namespace Partition

/-! ### Divisions of the nodes -/

/-- Every node is in one community, and nothing but nodes is listed. -/
structure Divides (p : Partition) (g : Graph W) : Prop where
  within : p.Within g
  unique : ∀ name ∈ g.nodes, ∃! k : Fin p.length, name ∈ p.get k

namespace Divides

variable {p : Partition} {g : Graph W}

theorem disjoint (h : p.Divides g) : p.Pairwise List.Disjoint := by
  rw [List.pairwise_iff_getElem]
  intro i j hi hj hij name hmem hmem'
  have hname : name ∈ g.nodes := h.within _ (List.getElem_mem hi) name hmem
  have heq : (⟨i, hi⟩ : Fin p.length) = ⟨j, hj⟩ := (h.unique name hname).unique hmem hmem'
  exact Nat.ne_of_lt hij (Fin.mk.inj heq)

theorem communityOf_eq_some_iff (h : p.Divides g) {name : String} {k : Nat} :
    p.communityOf name = some k ↔ ∃ m, p[k]? = some m ∧ name ∈ m :=
  communityOf_eq_some_iff_of_disjoint h.disjoint

theorem communityOf_eq_of_mem (h : p.Divides g) {m : List String} (hm : m ∈ p) :
    ∃ k, ∀ name ∈ m, p.communityOf name = some k := by
  obtain ⟨k, hk⟩ := List.mem_iff_getElem?.1 hm
  exact ⟨k, fun name hname => h.communityOf_eq_some_iff.2 ⟨m, hk, hname⟩⟩

theorem exists_communityOf (h : p.Divides g) {name : String} (hname : name ∈ g.nodes) :
    ∃ k, p.communityOf name = some k := by
  obtain ⟨i, hi, -⟩ := h.unique name hname
  obtain ⟨k, hk⟩ := h.communityOf_eq_of_mem (List.get_mem p i)
  exact ⟨k, hk name hi⟩

theorem communityOf_eq_none (h : p.Divides g) {name : String} (hname : name ∉ g.nodes) :
    p.communityOf name = none :=
  communityOf_eq_none_iff.2 fun m hm hmem => hname (h.within m hm name hmem)

end Divides

end Partition

namespace Clustering

/-- One cluster for every community, and no edges between them yet. -/
def ofCommunities (g : Graph W) (p : Partition) : Clustering W :=
  ⟨p.mapIdx (clusterOfCommunity g), []⟩

/-- The clusters with the edges between them. -/
def classified (g : Graph W) (p : Partition) : Clustering W :=
  { ofCommunities g p with interEdges := (ofCommunities g p).crossingEdges g }

/-! ### When the clusters are made -/

theorem firstUnknown_eq_none_iff (g : Graph W) (p : Partition) (index : Nat) :
    firstUnknown g index p = none ↔ p.Within g := by
  induction p generalizing index with
  | nil => simp [firstUnknown, Partition.Within]
  | cons m p ih =>
    rw [firstUnknown, Partition.Within, List.forall_mem_cons]
    cases hfind : m.find? fun name => !g.contains name with
    | some name =>
      have hname := List.find?_some hfind
      have hmem := List.mem_of_find?_eq_some hfind
      simp only [reduceCtorEq, false_iff, not_and]
      intro hm
      simp [Graph.contains, hm name hmem] at hname
    | none =>
      have hm : ∀ name ∈ m, name ∈ g.nodes := by
        simpa [Graph.contains] using List.find?_eq_none.1 hfind
      exact (ih _).trans ⟨fun h => ⟨hm, h⟩, fun h => h.2⟩

theorem ofPartition_of_within {g : Graph W} {p : Partition} (h : p.Within g) :
    ofPartition g p = ⟨[.stageStarted .adapt, .stageFinished .adapt], .ok (ofCommunities g p)⟩ := by
  simp only [ofPartition, (firstUnknown_eq_none_iff g p 0).2 h]
  rfl

theorem ofPartition_result_eq_ok {g : Graph W} {p : Partition} {c : Clustering W} :
    (ofPartition g p).result = .ok c ↔ p.Within g ∧ c = ofCommunities g p := by
  by_cases h : p.Within g
  · simp [ofPartition_of_within h, h, eq_comm]
  · simp only [h, false_and, iff_false]
    cases hfirst : firstUnknown g 0 p with
    | none => exact absurd ((firstUnknown_eq_none_iff g p 0).1 hfirst) h
    | some found => simp [ofPartition, hfirst, Traced.bind_result_eq_ok]

/-- A run has a result exactly when the partition that it finds lists nodes only. -/
theorem identifyClusters_result_eq_ok [Number W] {g : Graph W} {partitioner : Partitioner}
    {c : Clustering W} :
    (g.identifyClusters partitioner).result = .ok c ↔
      ∃ p, (partitioner.partition g.adjacency).result = .ok p ∧ p.Within g ∧
        classified g p = c := by
  simp [Graph.identifyClusters, Traced.bind_result_eq_ok, ofPartition_result_eq_ok, classified]

/-- All that is reported on the way. -/
theorem identifyClusters_of_within [Number W] {g : Graph W} {partitioner : Partitioner}
    {p : Partition} {events : List (Event W)}
    (hp : partitioner.partition g.adjacency = ⟨events, .ok p⟩) (h : p.Within g) :
    g.identifyClusters partitioner =
      ⟨.stageStarted .partition :: (g.adjacencyEvents ++ (events ++
          .modularity partitioner.algorithm.title (g.adjacency.modularity p) ::
          .stageFinished .partition :: .stageStarted .adapt :: .stageFinished .adapt ::
          .stageStarted .classify :: ((ofCommunities g p).crossingEvents g ++
          [.stageFinished .classify]))),
        .ok (classified g p)⟩ := by
  simp only [Graph.identifyClusters, hp, Traced.emit_bind, Traced.emitAll_bind, Traced.ok_bind,
    ofPartition_of_within h, List.cons_append, List.nil_append]
  rfl

/-! ### Why none are made -/

section Faults
variable [Number W] {fault : Fault}

/-- A level is found unless there is none. -/
theorem eq_noLevels_of_selectLevel {a : Adjacency W} {levels : List Partition}
    (h : (a.selectLevel levels).result = .error fault) : fault = .noLevels := by
  rw [Adjacency.selectLevel, Traced.emitAll_bind] at h
  simp only at h
  split at h
  · cases h
  · split at h
    · cases h
    · cases h
      rfl

theorem eq_noLevels_of_partition {partitioner : Partitioner} {a : Adjacency W}
    (h : (partitioner.partition a).result = .error fault) : fault = .noLevels := by
  cases partitioner with
  | connectedComponents => cases h
  | precomputed algorithm groups => cases h
  | girvanNewman levels =>
    rw [Partitioner.partition, Traced.emit_bind] at h
    exact eq_noLevels_of_selectLevel h

omit [Number W] in
theorem ofPartition_result_eq_error {g : Graph W} {p : Partition}
    (h : (ofPartition g p).result = .error fault) : ∃ id name, fault = .unknownMember id name := by
  rw [ofPartition, Traced.emit_bind] at h
  cases hfirst : firstUnknown g 0 p with
  | none => simp [hfirst, Traced.bind_result_eq_error] at h
  | some found =>
    simp only [hfirst, Traced.emit_bind, Traced.result_fail, Except.error.injEq] at h
    exact ⟨_, _, h.symm⟩

/-- A run stops on an empty sequence of levels or on a name that is no node, and on nothing else. -/
theorem identifyClusters_result_eq_error {g : Graph W} {partitioner : Partitioner}
    (h : (g.identifyClusters partitioner).result = .error fault) : fault.OfPartition := by
  simp only [Graph.identifyClusters, Traced.emit_bind, Traced.emitAll_bind,
    Traced.bind_result_eq_error] at h
  obtain h | ⟨p, -, h | ⟨c, -, h⟩⟩ := h
  · exact .inl (eq_noLevels_of_partition h)
  · exact .inr (ofPartition_result_eq_error h)
  · cases h

end Faults

/-! ### The cluster of a name -/

theorem contains_clusterOfCommunity (g : Graph W) (i : Nat) (m : List String) (name : String) :
    (clusterOfCommunity g i m).contains name = m.contains name := by
  simp [Cluster.contains, clusterOfCommunity, List.contains_eq_mem]

/-- The members of all clusters, cluster by cluster. -/
theorem flatMap_nodes (g : Graph W) (p : Partition) :
    (ofCommunities g p).clusters.flatMap Cluster.nodes = p.flatMap List.eraseDups := by
  rw [List.flatMap_def, List.flatMap_def]
  congr 1
  apply List.ext_getElem <;> simp [ofCommunities, clusterOfCommunity]

theorem find?_mapIdx {name : String} (f : Nat → List String → Cluster W)
    (hf : ∀ i m, (f i m).contains name = m.contains name) (p : Partition) :
    (p.mapIdx f).find? (·.contains name) =
      (p.communityOf name).bind fun i => p[i]?.map (f i) := by
  induction p generalizing f with
  | nil => rfl
  | cons m p ih =>
    rw [List.mapIdx_cons, List.find?_cons, hf, Partition.communityOf, List.findIdx?_cons]
    cases m.contains name with
    | true => rfl
    | false =>
      simp only [Bool.false_eq_true, if_false]
      rw [ih (fun i => f (i + 1)) fun i => hf (i + 1), Option.bind_map]
      rfl

/-- A name falls into the cluster of its first community. -/
theorem clusterOf_ofCommunities (g : Graph W) (p : Partition) (name : String) :
    (ofCommunities g p).clusterOf name =
      (p.communityOf name).bind fun i => p[i]?.map (clusterOfCommunity g i) :=
  find?_mapIdx _ (fun i m => contains_clusterOfCommunity g i m name) p

theorem clusterOf_eq_none {g : Graph W} {p : Partition} {name : String}
    (h : p.communityOf name = none) : (ofCommunities g p).clusterOf name = none := by
  rw [clusterOf_ofCommunities, h, Option.bind_none]

theorem ids_ofCommunities (g : Graph W) (p : Partition) :
    (ofCommunities g p).clusters.map Cluster.id =
      (List.range p.length).map fun k => UInt32.ofNat (k + 1) := by
  apply List.ext_getElem <;> simp [ofCommunities, clusterOfCommunity]

/-- The ids of fewer than 2³² clusters do not wrap around. -/
theorem toNat_id {i count : Nat} (hi : i < count) (hcount : count < wordBound32) :
    (UInt32.ofNat (i + 1)).toNat = i + 1 := by
  simp only [wordBound32] at hcount
  rw [UInt32.toNat_ofNat']
  omega

theorem exists_clusterOf {g : Graph W} {p : Partition} {name : String} {i : Nat}
    (h : p.communityOf name = some i) :
    ∃ k, (ofCommunities g p).clusterOf name = some k ∧ k.id = UInt32.ofNat (i + 1) := by
  have hi := Partition.lt_of_communityOf h
  rw [clusterOf_ofCommunities, h]
  simp [List.getElem?_eq_getElem hi, clusterOfCommunity]

/-! ### Crossing edges -/

theorem crosses_of_communityOf_eq_none {g : Graph W} {p : Partition} {e : Edge W}
    (h : p.communityOf e.source = none ∨ p.communityOf e.target = none) :
    (ofCommunities g p).crosses e = true := by
  unfold crosses
  rcases h with h | h
  · rw [clusterOf_eq_none h]
  · rw [clusterOf_eq_none h]
    cases (ofCommunities g p).clusterOf e.source <;> rfl

theorem crosses_of_communityOf_eq {g : Graph W} {p : Partition} {e : Edge W} {i : Nat}
    (hsource : p.communityOf e.source = some i) (htarget : p.communityOf e.target = some i) :
    (ofCommunities g p).crosses e = false := by
  obtain ⟨k, hk, hki⟩ := exists_clusterOf (g := g) hsource
  obtain ⟨l, hl, hli⟩ := exists_clusterOf (g := g) htarget
  simp only [crosses, hk, hl, hki, hli, bne_self_eq_false]

/-- As long as the ids do not wrap around, an edge stays within the clusters exactly when both of
its ends have the same first community. -/
theorem crosses_eq_false_iff {g : Graph W} {p : Partition} (hcount : p.length < wordBound32)
    (e : Edge W) :
    (ofCommunities g p).crosses e = false ↔
      ∃ i, p.communityOf e.source = some i ∧ p.communityOf e.target = some i := by
  refine ⟨fun h => ?_, fun ⟨i, hsource, htarget⟩ => crosses_of_communityOf_eq hsource htarget⟩
  cases hs : p.communityOf e.source with
  | none => simp [crosses_of_communityOf_eq_none (.inl hs)] at h
  | some i =>
    cases ht : p.communityOf e.target with
    | none => simp [crosses_of_communityOf_eq_none (.inr ht)] at h
    | some j =>
      obtain ⟨k, hk, hki⟩ := exists_clusterOf (g := g) hs
      obtain ⟨l, hl, hlj⟩ := exists_clusterOf (g := g) ht
      simp only [crosses, hk, hl, bne_eq_false_iff_eq] at h
      rw [hki, hlj, ← UInt32.toNat_inj, toNat_id (Partition.lt_of_communityOf hs) hcount,
        toNat_id (Partition.lt_of_communityOf ht) hcount] at h
      exact ⟨i, rfl, congrArg some (by omega)⟩

end Clustering

end CallClusters
