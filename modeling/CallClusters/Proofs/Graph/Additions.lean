import CallClusters.Graph.Adjacency
import CallClusters.Proofs.Graph.Normal

/-! A builder in step with the checked operations of a graph. It drops what they refuse, so the same
additions lead both to the same nodes and edges, and what is built is free of repeated names and of
dangling edges. -/

namespace CallClusters

/-- A node, or a call of weight one. -/
inductive Addition where
  | node (name : String)
  | call (source target : String) (method caller : Method)

/-- The name of a node that is added. -/
def Addition.name? : Addition → Option String
  | .node name => some name
  | .call .. => none

variable {W : Type} [Number W]

def Edge.call (source target : String) (method caller : Method) : Edge W :=
  ⟨source, target, method, caller, Number.ofNat 1⟩

namespace Graph

/-- Adds by the checked operations: a node where there is none of its name, and a call unless it is
refused. -/
def add (g : Graph W) : Addition → Graph W
  | .node name => if g.contains name then g else g.insertNode name
  | .call source target method caller =>
    match g.insertEdge (.call source target method caller) with
    | .ok added => added
    | .error _ => g

def addAll (g : Graph W) (additions : List Addition) : Graph W := additions.foldl add g

section Checked
variable {g : Graph W} {e : Edge W}
omit [Number W]

theorem insertEdge_of_mem (h : e.source ∈ g.nodes ∧ e.target ∈ g.nodes) :
    g.insertEdge e = .ok { g with edges := g.edges ++ [e] } := by
  simp [insertEdge, contains, h.1, h.2]

theorem exists_insertEdge_iff :
    (∃ g', g.insertEdge e = .ok g') ↔ e.source ∈ g.nodes ∧ e.target ∈ g.nodes := by
  refine ⟨fun ⟨g', hg'⟩ => ?_, fun h => ⟨_, insertEdge_of_mem h⟩⟩
  by_contra h
  by_cases hsource : e.source ∈ g.nodes
  · have htarget : e.target ∉ g.nodes := fun htarget => h ⟨hsource, htarget⟩
    simp [insertEdge, contains, hsource, htarget] at hg'
  · simp [insertEdge, contains, hsource] at hg'

end Checked

end Graph

namespace Builder

def add (b : Builder W) : Addition → Builder W
  | .node name => b.addNode name
  | .call source target method caller => (b.addEdge source target method caller).1

def addAll (b : Builder W) (additions : List Addition) : Builder W := additions.foldl add b

/-- The builder holds what the graph does, and they answer alike: they know the same names, and an
edge is added to the builder just when the graph accepts it. The builder reports the others. -/
structure InStep (b : Builder W) (g : Graph W) : Prop where
  build : b.build = g
  contains : ∀ name, b.contains name = g.contains name
  added : ∀ source target method caller,
    (b.addEdge source target method caller).2.1 = true ↔
      ∃ g', g.insertEdge (.call source target method caller) = .ok g'
  events : ∀ source target method caller,
    (b.addEdge source target method caller).2.2 =
      if (b.addEdge source target method caller).2.1 then []
      else [.edgeSkipped source target "endpoint is not among the graph's nodes"]

variable (b : Builder W)

/-! ### One addition -/

theorem inStep_build : b.InStep b.build where
  build := rfl
  contains := b.contains_eq
  added source target method caller := by
    rw [Graph.exists_insertEdge_iff]
    by_cases h : source ∈ b.nodes ∧ target ∈ b.nodes
    · simp [b.addEdge_of_mem h.1 h.2, Edge.call, build, h]
    · simp [b.addEdge_of_not_mem h, Edge.call, build, h]
  events source target method caller := by
    by_cases h : source ∈ b.nodes ∧ target ∈ b.nodes
    · simp [b.addEdge_of_mem h.1 h.2]
    · simp [b.addEdge_of_not_mem h, skipped]

omit [Number W] in
theorem build_addNode (name : String) :
    (b.addNode name).build =
      if b.build.contains name then b.build else b.build.insertNode name := by
  have hbuild : (b.addNode name).build = ⟨(b.addNode name).nodes, b.edges⟩ := rfl
  rw [hbuild, nodes_addNode]
  by_cases h : name ∈ b.nodes
  · rw [if_pos h, if_pos]
    · rfl
    · exact List.contains_iff_mem.2 h
  · rw [if_neg h, if_neg]
    · rfl
    · exact mt List.contains_iff_mem.1 h

/-- An addition to the builder is the checked one to what it builds. -/
theorem build_add (a : Addition) : (b.add a).build = b.build.add a := by
  cases a with
  | node name => exact b.build_addNode name
  | call source target method caller =>
    by_cases h : source ∈ b.nodes ∧ target ∈ b.nodes
    · have hkept := Graph.insertEdge_of_mem (g := b.build) (e := .call source target method caller) h
      rw [add, b.addEdge_of_mem h.1 h.2, Graph.add, hkept]
      rfl
    · have hrefused : ¬ ∃ g', b.build.insertEdge (.call source target method caller) = .ok g' :=
        mt Graph.exists_insertEdge_iff.1 h
      rw [add, b.addEdge_of_not_mem h, Graph.add]
      split
      · rename_i g' hg'
        exact absurd ⟨g', hg'⟩ hrefused
      · rfl

theorem nodes_addEdge (source target : String) (method caller : Method) :
    (b.addEdge source target method caller).1.nodes = b.nodes := by
  by_cases h : source ∈ b.nodes ∧ target ∈ b.nodes
  · rw [b.addEdge_of_mem h.1 h.2]
  · rw [b.addEdge_of_not_mem h]

theorem normal_add {b : Builder W} (h : b.build.Normal) (a : Addition) : (b.add a).build.Normal := by
  cases a with
  | node name => exact normal_addNode h name
  | call source target method caller => exact normal_addEdge h source target method caller

/-! ### Many additions -/

theorem build_addAll (additions : List Addition) :
    (b.addAll additions).build = b.build.addAll additions := by
  induction additions generalizing b with
  | nil => rfl
  | cons a additions ih =>
    have hrest := ih (b.add a)
    rw [build_add] at hrest
    exact hrest

theorem normal_addAll {b : Builder W} (h : b.build.Normal) (additions : List Addition) :
    (b.addAll additions).build.Normal := by
  induction additions generalizing b with
  | nil => exact h
  | cons a additions ih => exact ih (normal_add h a)

theorem nodes_addAll (additions : List Addition) :
    (b.addAll additions).nodes = (b.nodes ++ additions.filterMap Addition.name?).eraseDups := by
  induction additions generalizing b with
  | nil => simp [addAll, eraseDups_eq_self b.nodup_nodes]
  | cons a additions ih =>
    have hrest := ih (b.add a)
    cases a with
    | node name =>
      rw [add, ← nodes_addNodes] at hrest
      exact hrest.trans (b.nodes_addNodes (name :: additions.filterMap Addition.name?))
    | call source target method caller =>
      rw [add, nodes_addEdge] at hrest
      exact hrest

/-- Through any additions, a builder and the checked operations stay in step, and lead to the same
graph. It has the added names, each once and in the order in which they first came; no edge of it
dangles, so that its adjacency takes in every edge without a report. -/
theorem inStep_addAll (additions : List Addition) :
    (∀ done, done <+: additions →
      ((empty : Builder W).addAll done).InStep (Graph.empty.addAll done)) ∧
    ∃ g : Graph W, (empty.addAll additions).build = g ∧ Graph.empty.addAll additions = g ∧
      g.nodes = (additions.filterMap Addition.name?).eraseDups ∧ g.nodes.Nodup ∧
      (∀ e ∈ g.edges, e.source ∈ g.nodes ∧ e.target ∈ g.nodes) ∧ g.adjacencyEvents = [] := by
  have hbuild (done : List Addition) :
      ((empty : Builder W).addAll done).build = Graph.empty.addAll done := build_addAll empty done
  refine ⟨fun done _ => hbuild done ▸ inStep_build _, _, hbuild additions, rfl, ?_⟩
  have hempty : (empty : Builder W).build.Normal := Graph.normal_empty
  have hnormal : (Graph.empty.addAll additions : Graph W).Normal :=
    hbuild additions ▸ normal_addAll hempty additions
  refine ⟨?_, hnormal.distinct, fun e he => ?_, ?_⟩
  · rw [← hbuild]
    exact nodes_addAll empty additions
  · exact Graph.dangles_eq_false_iff.1 (hnormal.attached e he)
  · rw [Graph.adjacencyEvents, Graph.filter_dangles_eq_nil hnormal.attached, List.map_nil]

/-- A call that came before its target stays refused when the target is added later. -/
example :
    let call : Addition := .call "A" "B" .blank .blank
    ((empty : Builder Rat).addAll [.node "A", call, .node "B", .node "A", call]).build =
      ⟨["A", "B"], [.call "A" "B" .blank .blank]⟩ := by
  rfl

end Builder

end CallClusters
