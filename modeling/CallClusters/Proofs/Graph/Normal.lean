import CallClusters.Proofs.Graph.Builder

/-! The normal form of a graph: every name once, no dangling edge, and all weights one. -/

namespace CallClusters

variable {W : Type} [Number W]

/-- The same call with weight one. -/
def Edge.unweighted (e : Edge W) : Edge W := { e with weight := Number.ofNat 1 }

namespace Graph

/-- The first node of every name and the edges between nodes, all of weight one. -/
def normal (g : Graph W) : Graph W :=
  ⟨g.names, (g.edges.filter fun e => !g.dangles e).map Edge.unweighted⟩

structure Normal (g : Graph W) : Prop where
  distinct : g.nodes.Nodup
  attached : ∀ e ∈ g.edges, g.dangles e = false
  weight : ∀ e ∈ g.edges, e.weight = Number.ofNat 1

omit [Number W] in
theorem dangles_eq_false_iff {g : Graph W} {e : Edge W} :
    g.dangles e = false ↔ e.source ∈ g.nodes ∧ e.target ∈ g.nodes := by
  simp [dangles, contains]

omit [Number W] in
theorem dangles_eq_true_iff {g : Graph W} {e : Edge W} :
    g.dangles e = true ↔ e.source ∉ g.nodes ∨ e.target ∉ g.nodes := by
  rw [← Bool.not_eq_false, dangles_eq_false_iff, Classical.not_and_iff_not_or_not]

omit [Number W] in
theorem filter_dangles_eq_nil {g : Graph W} (h : ∀ e ∈ g.edges, g.dangles e = false) :
    g.edges.filter g.dangles = [] := by
  rw [List.filter_eq_nil_iff]
  intro e he
  rw [h e he]
  exact Bool.false_ne_true

omit [Number W] in
/-- Which edges dangle depends on nothing but the names of the nodes. -/
theorem dangles_congr {g g' : Graph W} (h : ∀ name, name ∈ g.nodes ↔ name ∈ g'.nodes) :
    g.dangles = g'.dangles := by
  funext e
  rw [Bool.eq_iff_iff, ← not_iff_not, Bool.not_eq_true, Bool.not_eq_true, dangles_eq_false_iff,
    dangles_eq_false_iff, h, h]

theorem normal_empty : (empty : Graph W).Normal := ⟨by simp [empty], by simp [empty], by simp [empty]⟩

theorem normal_normal (g : Graph W) : g.normal.Normal where
  distinct := nodup_eraseDups _
  attached := by
    intro e he
    obtain ⟨kept, hkept, rfl⟩ := List.mem_map.1 he
    have hends := (List.mem_filter.1 hkept).2
    rw [Bool.not_eq_true', dangles_eq_false_iff] at hends
    simpa [dangles_eq_false_iff, normal, names, Edge.unweighted] using hends
  weight := by
    intro e he
    obtain ⟨kept, -, rfl⟩ := List.mem_map.1 he
    rfl

/-- Edges that are among those of a normal graph have weight one already. -/
theorem Normal.map_unweighted {g : Graph W} (h : g.Normal) {edges : List (Edge W)}
    (hedges : edges ⊆ g.edges) : edges.map Edge.unweighted = edges := by
  have hunweighted : ∀ e ∈ edges, e.unweighted = e := by
    intro e he
    rw [Edge.unweighted, ← h.weight e (hedges he)]
  rw [List.map_congr_left hunweighted, List.map_id']

/-- A graph in normal form is its own normal form. -/
theorem Normal.normal_eq {g : Graph W} (h : g.Normal) : g.normal = g := by
  have hnames : g.names = g.nodes := eraseDups_eq_self h.distinct
  have hkept : g.edges.filter (fun e => !g.dangles e) = g.edges := by
    rw [List.filter_eq_self]
    intro e he
    rw [h.attached e he, Bool.not_false]
  rw [normal, hnames, hkept, h.map_unweighted (List.Subset.refl _)]

end Graph

namespace Builder

/-- What is built of the names alone is in normal form. -/
theorem normal_addNodes (names : List String) :
    ((empty : Builder W).addNodes names).build.Normal := by
  have hedges : ((empty : Builder W).addNodes names).edges = [] := edges_addNodes empty names
  exact ⟨nodup_nodes _, by simp [build, hedges], by simp [build, hedges]⟩

omit [Number W] in
theorem mem_addNode {b : Builder W} {other : String} (h : other ∈ b.nodes) (name : String) :
    other ∈ (b.addNode name).nodes := by
  rw [nodes_addNode]
  split
  · exact h
  · exact List.mem_append_left _ h

/-- A new node attaches no edge, and it detaches none. -/
theorem normal_addNode {b : Builder W} (h : b.build.Normal) (name : String) :
    (b.addNode name).build.Normal := by
  refine ⟨nodup_nodes _, fun e he => ?_, h.weight⟩
  have hends := Graph.dangles_eq_false_iff.1 (h.attached e he)
  exact Graph.dangles_eq_false_iff.2 ⟨mem_addNode hends.1 name, mem_addNode hends.2 name⟩

/-- An edge is kept in a form that keeps the graph in normal form, or else it is dropped. -/
theorem normal_addEdge {b : Builder W} (h : b.build.Normal) (source target : String)
    (method caller : Method) : (b.addEdge source target method caller).1.build.Normal := by
  by_cases hends : source ∈ b.nodes ∧ target ∈ b.nodes
  · rw [b.addEdge_of_mem hends.1 hends.2]
    refine ⟨h.distinct, ?_, ?_⟩
    · intro e he
      rcases List.mem_append.1 he with he | he
      · exact h.attached e he
      · rw [List.mem_singleton.1 he, Graph.dangles_eq_false_iff]
        exact hends
    · intro e he
      rcases List.mem_append.1 he with he | he
      · exact h.weight e he
      · rw [List.mem_singleton.1 he]
  · rw [b.addEdge_of_not_mem hends]
    exact h

end Builder

end CallClusters
