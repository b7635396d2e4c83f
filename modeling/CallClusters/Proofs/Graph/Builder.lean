import CallClusters.Graph.Builder
import CallClusters.Proofs.Distinct

/-! What a builder holds, without its index: the names in the order in which they first came, and
the edges between them. -/

namespace CallClusters.Builder

variable {W : Type} (b : Builder W)

/-! ### The index -/

/-- A name has one position, so it is listed once. -/
theorem nodup_nodes : b.nodes.Nodup := by
  rw [List.nodup_iff_getElem?_ne_getElem?]
  intro i j hij hj heq
  rw [List.getElem?_eq_getElem hj] at heq
  have hi := (b.indexed _ i).2 heq
  have hj := (b.indexed _ j).2 (List.getElem?_eq_getElem hj)
  rw [hi, Option.some.injEq] at hj
  exact Nat.ne_of_lt hij hj

theorem lookup_isSome_iff (name : String) : (b.index.lookup name).isSome ↔ name ∈ b.nodes := by
  rw [Option.isSome_iff_exists, List.mem_iff_getElem?]
  exact exists_congr (b.indexed name)

@[simp] theorem contains_eq (name : String) : b.contains name = b.nodes.contains name := by
  rw [Bool.eq_iff_iff, contains, lookup_isSome_iff, List.contains_iff_mem]

theorem node?_of_mem {name : String} (h : name ∈ b.nodes) : b.node? name = some name := by
  obtain ⟨i, hi⟩ := List.mem_iff_getElem?.1 h
  change (b.index.lookup name).bind (b.nodes[·]?) = some name
  rw [(b.indexed name i).2 hi, Option.bind_some, hi]

theorem node?_of_not_mem {name : String} (h : name ∉ b.nodes) : b.node? name = none := by
  rw [← lookup_isSome_iff, Bool.not_eq_true, Option.isSome_eq_false_iff, Option.isNone_iff_eq_none]
    at h
  change (b.index.lookup name).bind (b.nodes[·]?) = none
  rw [h, Option.bind_none]

/-! ### Adding -/

theorem nodes_addNode (name : String) :
    (b.addNode name).nodes = if name ∈ b.nodes then b.nodes else b.nodes ++ [name] := by
  simp only [← lookup_isSome_iff]
  cases h : b.index.lookup name with
  | none =>
    have hentered : (b.index.enter name b.nodes.length).2 = b.nodes.length := by
      simp [NameIndex.enter, h]
    simp [addNode, hentered]
  | some i =>
    have hentered : (b.index.enter name b.nodes.length).2 = i := by simp [NameIndex.enter, h]
    have hlt : i < b.nodes.length := (List.getElem?_eq_some_iff.1 ((b.indexed name i).1 h)).1
    simp [addNode, hentered, Nat.ne_of_lt hlt]

theorem nodes_addNodes (names : List String) :
    (b.addNodes names).nodes = (b.nodes ++ names).eraseDups := by
  induction names generalizing b with
  | nil => simp [addNodes, eraseDups_eq_self b.nodup_nodes]
  | cons name names ih =>
    have hstep : (b.addNodes (name :: names)).nodes = ((b.addNode name).nodes ++ names).eraseDups :=
      ih (b.addNode name)
    rw [hstep, nodes_addNode]
    split
    · rename_i h
      rw [eraseDups_append_cons_of_mem h]
    · rw [List.append_assoc, List.singleton_append]

theorem edges_addNodes (names : List String) : (b.addNodes names).edges = b.edges := by
  induction names generalizing b with
  | nil => rfl
  | cons name names ih => exact ih (b.addNode name)

variable [Number W]

theorem addEdge_of_mem {source target : String} (hsource : source ∈ b.nodes)
    (htarget : target ∈ b.nodes) (method caller : Method) :
    b.addEdge source target method caller =
      ({ b with edges := b.edges ++ [⟨source, target, method, caller, Number.ofNat 1⟩] },
        true, []) := by
  simp only [addEdge, b.node?_of_mem hsource, b.node?_of_mem htarget]

theorem addEdge_of_not_mem {source target : String} (h : ¬ (source ∈ b.nodes ∧ target ∈ b.nodes))
    (method caller : Method) :
    b.addEdge source target method caller = (b, false, [skipped source target]) := by
  by_cases hsource : source ∈ b.nodes
  · have htarget : target ∉ b.nodes := fun htarget => h ⟨hsource, htarget⟩
    simp only [addEdge, b.node?_of_mem hsource, b.node?_of_not_mem htarget]
  · simp only [addEdge, b.node?_of_not_mem hsource]

end CallClusters.Builder
