import CallClusters.Proofs.Cluster.Tiling
import CallClusters.Proofs.Graph.Additions
import CallClusters.Proofs.Graph.Tally
import CallClusters.Proofs.Median
import CallClusters.Proofs.Number
import CallClusters.Proofs.Report.Faults

/-! Graphs that grow by checked insertions. No edge of such a graph dangles, so every edge is counted at
both of its ends, and the counts add up to the number of edges. One more edge counts up one slot at each
end: averages and medians do not fall, and no node becomes isolated. -/

namespace CallClusters

/-- A node, which may repeat a name, or an edge, which may be refused. -/
inductive Insertion (W : Type) where
  | node (name : String)
  | edge (e : Edge W)

namespace Graph

variable {W : Type}

/-- The graph after an insertion, and the fault of an edge that was refused. -/
def insert (g : Graph W) : Insertion W → Graph W × Option Fault
  | .node name => (g.insertNode name, none)
  | .edge e =>
    match g.insertEdge e with
    | .ok inserted => (inserted, none)
    | .error fault => (g, some fault)

def insertAll (g : Graph W) (insertions : List (Insertion W)) : Graph W :=
  insertions.foldl (fun g insertion => (g.insert insertion).1) g

/-- Both ends of every edge are nodes. -/
def Attached (g : Graph W) : Prop := ∀ e ∈ g.edges, e.source ∈ g.nodes ∧ e.target ∈ g.nodes

/-- The same nodes, and one more edge. -/
def withEdge (g : Graph W) (e : Edge W) : Graph W := { g with edges := g.edges ++ [e] }

variable {g : Graph W} {e : Edge W}

/-! ### One insertion -/

theorem insert_edge_of_mem (h : e.source ∈ g.nodes ∧ e.target ∈ g.nodes) :
    g.insert (.edge e) = (g.withEdge e, none) := by
  rw [insert, insertEdge_of_mem h, withEdge]

theorem insert_edge_of_not_mem (h : ¬ (e.source ∈ g.nodes ∧ e.target ∈ g.nodes)) :
    ∃ fault, g.insert (.edge e) = (g, some fault) := by
  rw [insert]
  split
  · rename_i inserted hinserted
    exact absurd (exists_insertEdge_iff.1 ⟨inserted, hinserted⟩) h
  · exact ⟨_, rfl⟩

theorem insert_edge_eq_none_iff :
    (g.insert (.edge e)).2 = none ↔ e.source ∈ g.nodes ∧ e.target ∈ g.nodes := by
  by_cases h : e.source ∈ g.nodes ∧ e.target ∈ g.nodes
  · simp [insert_edge_of_mem h, h]
  · obtain ⟨fault, hfault⟩ := insert_edge_of_not_mem h
    simp [hfault, h]

theorem Attached.withEdge (h : g.Attached) (hends : e.source ∈ g.nodes ∧ e.target ∈ g.nodes) :
    (g.withEdge e).Attached := by
  intro other hother
  rcases List.mem_append.1 hother with hother | hother
  · exact h other hother
  · rw [List.mem_singleton.1 hother]
    exact hends

/-- A new node detaches no edge, and a new edge is attached or else refused. -/
theorem Attached.insert (h : g.Attached) (insertion : Insertion W) : (g.insert insertion).1.Attached := by
  cases insertion with
  | node name =>
    intro e he
    exact (h e he).imp (List.mem_append_left _) (List.mem_append_left _)
  | edge e =>
    by_cases hends : e.source ∈ g.nodes ∧ e.target ∈ g.nodes
    · rw [insert_edge_of_mem hends]
      exact h.withEdge hends
    · obtain ⟨fault, hfault⟩ := insert_edge_of_not_mem hends
      rwa [hfault]

theorem Attached.insertAll (h : g.Attached) (insertions : List (Insertion W)) :
    (g.insertAll insertions).Attached := by
  induction insertions generalizing g with
  | nil => exact h
  | cons insertion insertions ih => exact ih (h.insert insertion)

theorem attached_insertAll (insertions : List (Insertion W)) : (empty.insertAll insertions).Attached :=
  Attached.insertAll (by simp [Attached, empty]) insertions

/-! ### Counts of an attached graph -/

/-- Edges that all end at nodes are counted once each. -/
theorem total_degrees {endpoint : Edge W → String} (h : ∀ e ∈ g.edges, endpoint e ∈ g.nodes) :
    total (g.degrees endpoint) = g.edges.length := by
  -- The edges listed name by name are all edges, each of them once.
  have hperm := flatten_filter_perm g.nodup_names fun e he => mem_names.2 (h e he)
  rw [← hperm.length_eq, ← total_map_length, List.map_map, degrees]
  congr 1
  apply List.map_congr_left
  intro name _
  exact List.countP_eq_length_filter

theorem distinctEdgeCount_le (g : Graph W) : g.distinctEdgeCount ≤ g.edges.length := by
  rw [distinctEdgeCount, ← List.length_map (f := Edge.ends)]
  exact (List.subperm_of_subset (nodup_eraseDups _) fun _ => List.mem_eraseDups.1).length_le

/-- The counts of a graph whose edges all end at nodes. -/
structure Counted [Number W] (g : Graph W) : Prop where
  attached : g.Attached
  inTotal : total g.inDegrees = g.edges.length
  outTotal : total g.outDegrees = g.edges.length
  average : g.nodes ≠ [] →
    g.averageDegree = .ok (Number.ofNat g.edges.length / Number.ofNat g.nodes.length)
  distinct : g.distinctEdgeCount ≤ g.edges.length

theorem Attached.counted [Number W] (h : g.Attached) : g.Counted := by
  have hin : total g.inDegrees = g.edges.length := total_degrees fun e he => (h e he).2
  refine ⟨h, hin, total_degrees fun e he => (h e he).1, fun hnodes => ?_, g.distinctEdgeCount_le⟩
  rw [averageDegree_eq_ok_iff, hin]
  exact ⟨mt List.length_eq_zero_iff.1 hnodes, rfl⟩

/-! ### One more edge -/

/-- What an edge between nodes adds to the counts. -/
structure Gains (g g' : Graph W) (e : Edge W) : Prop where
  nodes : g'.nodes = g.nodes
  edges : g'.edges = g.edges ++ [e]
  out : ∃ i, g.names[i]? = some e.source ∧ g'.outDegrees = g.outDegrees.modify i (· + 1)
  into : ∃ i, g.names[i]? = some e.target ∧ g'.inDegrees = g.inDegrees.modify i (· + 1)
  isolated : g'.isolatedCount ≤ g.isolatedCount
  distinct : g'.distinctEdgeCount =
    g.distinctEdgeCount + if e.ends ∈ g.edges.map Edge.ends then 0 else 1

theorem degrees_withEdge {endpoint : Edge W → String} (h : endpoint e ∈ g.nodes) :
    ∃ i, g.names[i]? = some (endpoint e) ∧
      (g.withEdge e).degrees endpoint = (g.degrees endpoint).modify i (· + 1) := by
  obtain ⟨i, hi⟩ := List.mem_iff_getElem?.1 (mem_names.2 h)
  refine ⟨i, hi, (degrees_concat g e endpoint).trans ?_⟩
  rw [countUp, idxOf?_names_eq_some_iff.2 hi]

theorem isolatedCount_withEdge_le (g : Graph W) (e : Edge W) :
    (g.withEdge e).isolatedCount ≤ g.isolatedCount := by
  rw [isolatedCount_eq, isolatedCount_eq]
  apply List.countP_mono_left
  intro name _ huntouched
  rw [Bool.not_eq_true', ← Bool.not_eq_true, List.contains_iff_mem, mem_touched] at huntouched ⊢
  exact fun ⟨other, hother, hend⟩ => huntouched ⟨other, List.mem_append_left _ hother, hend⟩

theorem distinctEdgeCount_withEdge (g : Graph W) (e : Edge W) : (g.withEdge e).distinctEdgeCount =
    g.distinctEdgeCount + if e.ends ∈ g.edges.map Edge.ends then 0 else 1 := by
  rw [distinctEdgeCount, withEdge, List.map_append, List.map_singleton]
  split
  · rename_i hold
    rw [eraseDups_concat_of_mem hold]
    rfl
  · rename_i hnew
    rw [eraseDups_concat_of_not_mem hnew, List.length_append]
    rfl

theorem gains_withEdge (h : e.source ∈ g.nodes ∧ e.target ∈ g.nodes) : g.Gains (g.withEdge e) e where
  nodes := rfl
  edges := rfl
  out := degrees_withEdge h.1
  into := degrees_withEdge h.2
  isolated := g.isolatedCount_withEdge_le e
  distinct := g.distinctEdgeCount_withEdge e

/-! ### Exact averages and medians -/

theorem forall₂_modify (ns : List Nat) (i : Nat) : List.Forall₂ (· ≤ ·) ns (ns.modify i (· + 1)) := by
  rw [List.forall₂_iff_get]
  refine ⟨(List.length_modify ..).symm, fun k hk _ => ?_⟩
  rw [List.get_eq_getElem, List.get_eq_getElem, List.getElem_modify]
  split
  · exact Nat.le_succ _
  · exact Nat.le_refl _

theorem exists_median_le {ns ns' : List Nat} (hns : ns ≠ []) (h : List.Forall₂ (· ≤ ·) ns ns') :
    ∃ m m' : Rat, median ns = some m ∧ median ns' = some m' ∧ m ≤ m' := by
  have hns' : ns' ≠ [] := by
    rw [← List.length_pos_iff, ← h.length_eq]
    exact List.length_pos_iff.2 hns
  obtain ⟨m, hm⟩ := exists_median (W := Rat) hns
  obtain ⟨m', hm'⟩ := exists_median (W := Rat) hns'
  exact ⟨m, m', hm, hm', median_le_of_forall₂ hm hm' h⟩

/-- Averages and medians that do not fall. -/
structure Steady (g g' : Graph Rat) : Prop where
  average : ∃ a a', g.averageDegree = .ok a ∧ g'.averageDegree = .ok a' ∧ a ≤ a'
  medianIn : ∃ m m', g.medianInDegree = .ok m ∧ g'.medianInDegree = .ok m' ∧ m ≤ m'
  medianOut : ∃ m m', g.medianOutDegree = .ok m ∧ g'.medianOutDegree = .ok m' ∧ m ≤ m'

theorem exists_median_withEdge {g : Graph Rat} {e : Edge Rat} {endpoint : Edge Rat → String}
    (h : endpoint e ∈ g.nodes) :
    ∃ m m' : Rat, median (g.degrees endpoint) = some m ∧
      median ((g.withEdge e).degrees endpoint) = some m' ∧ m ≤ m' := by
  obtain ⟨i, -, hi⟩ := degrees_withEdge h
  have hnodes : g.nodes ≠ [] := List.ne_nil_of_mem h
  have hdegrees : g.degrees endpoint ≠ [] := by
    rwa [degrees, ne_eq, List.map_eq_nil_iff, names_eq_nil_iff]
  rw [hi]
  exact exists_median_le hdegrees (forall₂_modify _ i)

theorem Attached.steady {g : Graph Rat} {e : Edge Rat} (h : g.Attached)
    (hends : e.source ∈ g.nodes ∧ e.target ∈ g.nodes) : g.Steady (g.withEdge e) where
  average := by
    have hnodes : g.nodes ≠ [] := List.ne_nil_of_mem hends.1
    have hmore : g.edges.length ≤ (g.withEdge e).edges.length := by simp [Graph.withEdge]
    refine ⟨_, _, h.counted.average hnodes, (h.withEdge hends).counted.average hnodes, ?_⟩
    change (g.edges.length : Rat) / g.nodes.length ≤ (g.withEdge e).edges.length / g.nodes.length
    gcongr
  medianIn := by
    simp only [medianInDegree_eq_ok_iff]
    exact exists_median_withEdge hends.2
  medianOut := by
    simp only [medianOutDegree_eq_ok_iff]
    exact exists_median_withEdge hends.1

/-! ### Any insertions -/

/-- Whatever is inserted, all edges end at nodes and are counted at both ends. An edge that is refused
changes nothing. An edge between nodes counts up the slots of its ends and no others; it isolates no
node, it is distinct just when it is the first between its ends, and in exact arithmetic neither the
average nor a median falls. -/
theorem insertAll_counts :
    (∀ {W : Type} [Number W] (insertions : List (Insertion W)) (e : Edge W),
      let g := empty.insertAll insertions
      g.Counted ∧
      ((g.insert (.edge e)).2 = none ↔ e.source ∈ g.nodes ∧ e.target ∈ g.nodes) ∧
      ((g.insert (.edge e)).2 ≠ none → (g.insert (.edge e)).1 = g) ∧
      ((g.insert (.edge e)).2 = none → g.Gains (g.insert (.edge e)).1 e)) ∧
    ∀ (insertions : List (Insertion Rat)) (e : Edge Rat),
      let g := empty.insertAll insertions
      (g.insert (.edge e)).2 = none → g.Steady (g.insert (.edge e)).1 := by
  refine ⟨fun insertions e => ?_, fun insertions e hinserted => ?_⟩
  · intro g
    have hattached : g.Attached := attached_insertAll insertions
    refine ⟨hattached.counted, insert_edge_eq_none_iff, fun hrefused => ?_, fun hinserted => ?_⟩
    · obtain ⟨fault, hfault⟩ := insert_edge_of_not_mem (mt insert_edge_eq_none_iff.2 hrefused)
      rw [hfault]
    · have hends := insert_edge_eq_none_iff.1 hinserted
      rw [insert_edge_of_mem hends]
      exact gains_withEdge hends
  · have hends := insert_edge_eq_none_iff.1 hinserted
    rw [insert_edge_of_mem hends]
    exact (attached_insertAll insertions).steady hends

/-- A refused edge, a repeated name and parallel edges, before the first edge back. -/
theorem insertAll_counts_back :
    let call (s t : String) : Edge Rat := ⟨s, t, .blank, .blank, 1⟩
    let g : Graph Rat := empty.insertAll [.node "A", .edge (call "A" "B"), .node "B", .node "A",
      .edge (call "A" "B"), .edge (call "A" "B")]
    let e := call "B" "A"
    g.nodes = ["A", "B", "A"] ∧ g.inDegrees = [0, 2] ∧ g.Counted ∧
      (g.insert (.edge (call "A" "Z"))).2 ≠ none ∧ (g.insert (.edge (call "A" "Z"))).1 = g ∧
      (g.insert (.edge e)).2 = none ∧ g.Gains (g.insert (.edge e)).1 e ∧
      g.Steady (g.insert (.edge e)).1 := by
  intro call g e
  obtain ⟨hcounts, hsteady⟩ := insertAll_counts
  have hrefused : (g.insert (.edge (call "A" "Z"))).2 ≠ none := by decide
  have hinserted : (g.insert (.edge e)).2 = none := by decide
  exact ⟨by decide, by decide, (hcounts _ e).1, hrefused, (hcounts _ _).2.2.1 hrefused, hinserted,
    (hcounts _ e).2.2.2 hinserted, hsteady _ e hinserted⟩

end Graph

end CallClusters
