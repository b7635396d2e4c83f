import CallClusters.Graph.Degree
import CallClusters.Proofs.Distinct
import Mathlib.Data.List.Sort

/-! Counts of nodes and edges. None of them depends on the order in which nodes and edges are listed:
degrees change places with their nodes, and sums and medians do not look at places. -/

namespace CallClusters

variable {W : Type}

theorem total_perm {ns ms : List Nat} (h : ns.Perm ms) : total ns = total ms := by
  induction h with
  | nil => rfl
  | cons n _ ih => rw [total, total, ih]
  | swap n m ns =>
    simp only [total]
    omega
  | trans _ _ ih ih' => rw [ih, ih']

/-- Values in another order are the same when they are sorted. -/
theorem median_perm [Number W] {ns ms : List Nat} (h : ns.Perm ms) :
    (median ns : Option W) = median ms := by
  have hsorted : ns.mergeSort (fun a b => decide (a ≤ b)) = ms.mergeSort fun a b => decide (a ≤ b) :=
    ((List.mergeSort_perm ns _).trans (h.trans (List.mergeSort_perm ms _).symm)).eq_of_pairwise'
      (List.pairwise_mergeSort' (· ≤ ·) ns) (List.pairwise_mergeSort' (· ≤ ·) ms)
  simp only [median, hsorted]

namespace Graph

variable {g g' : Graph W}

theorem mem_touched {name : String} :
    name ∈ g.touched ↔ ∃ e ∈ g.edges, e.source = name ∨ e.target = name := by
  simp [touched, eq_comm]

theorem isolatedCount_eq (g : Graph W) :
    g.isolatedCount = g.nodes.countP fun name => !g.touched.contains name :=
  List.countP_eq_length_filter.symm

section Values
variable [Number W] {m : W}

theorem averageDegree_eq_ok_iff : g.averageDegree = .ok m ↔ g.nodes.length ≠ 0 ∧
    m = Number.ofNat (total g.inDegrees) / Number.ofNat g.nodes.length := by
  rw [ne_eq, List.length_eq_zero_iff, ← List.isEmpty_iff, ← isEmpty, averageDegree]
  cases g.isEmpty <;> simp [eq_comm]

theorem medianInDegree_eq_ok_iff : g.medianInDegree = .ok m ↔ median g.inDegrees = some m := by
  rw [medianInDegree]
  cases (median g.inDegrees : Option W) <;> simp

theorem medianOutDegree_eq_ok_iff : g.medianOutDegree = .ok m ↔ median g.outDegrees = some m := by
  rw [medianOutDegree]
  cases (median g.outDegrees : Option W) <;> simp

end Values

section Order
variable (hnodes : g'.nodes.Perm g.nodes) (hedges : g'.edges.Perm g.edges)

include hedges in
theorem distinctEdgeCount_perm : g'.distinctEdgeCount = g.distinctEdgeCount :=
  (eraseDups_perm (hedges.map Edge.ends)).length_eq

include hnodes in
theorem names_perm : g'.names.Perm g.names := eraseDups_perm hnodes

include hnodes hedges

theorem isolatedCount_perm : g'.isolatedCount = g.isolatedCount := by
  have htouched (name : String) : g'.touched.contains name = g.touched.contains name := by
    rw [Bool.eq_iff_iff, List.contains_iff_mem, List.contains_iff_mem, mem_touched, mem_touched]
    exact exists_congr fun e => and_congr_left fun _ => hedges.mem_iff
  rw [isolatedCount_eq, isolatedCount_eq, hnodes.countP_eq]
  simp only [htouched]

theorem degrees_perm (endpoint : Edge W → String) :
    (g'.degrees endpoint).Perm (g.degrees endpoint) := by
  have hcount (name : String) : g'.edges.countP (fun e => endpoint e == name) =
      g.edges.countP fun e => endpoint e == name := hedges.countP_eq _
  simp only [degrees, hcount]
  exact (names_perm hnodes).map _

end Order

end Graph

end CallClusters
