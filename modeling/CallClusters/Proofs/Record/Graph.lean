import CallClusters.Analysis.Document
import CallClusters.Proofs.Graph.Normal
import CallClusters.Proofs.Json.Faithful
import CallClusters.Proofs.Traced

/-! Saving a graph and reading it back. The data of a graph survive as they are; building the
graph again brings it into normal form, and reports every edge that is lost. -/

namespace CallClusters

open Json (Faithful)

/-! ### Records and their data -/

theorem Parameter.faithful : Faithful toJson ofJson? where
  proper p := Json.proper_record (by simp [Json.proper_text])
  read_write p := by
    rw [ofJson?, toJson, Json.row?_record (by simp) (by simp)]
    rfl

theorem Method.faithful : Faithful toJson ofJson? where
  proper m := Json.proper_record (by simp [Json.proper_text, Parameter.faithful.list.proper])
  read_write m := by
    rw [ofJson?, toJson, Json.row?_record (by simp) (by simp)]
    simp only [Json.Row.defaulted?_cons, String.reduceEq, if_true, if_false,
      Faithful.string.read_write, Parameter.faithful.list.read_write, Option.bind_eq_bind,
      Option.bind_some, Option.pure_def]

/-- A method that is given is written as a record, and so it does not read as none. -/
theorem Method.optional?_toJson (m : Method) : Json.optional? ofJson? m.toJson = some (some m) := by
  change (ofJson? m.toJson).map some = some (some m)
  rw [faithful.read_write, Option.map_some]

theorem faithful_node : Faithful nodeToJson nodeOfJson? where
  proper name := Json.proper_record (by simp [Json.proper_text])
  read_write name := by
    rw [nodeOfJson?, nodeToJson, Json.row?_record (by simp) (by simp)]
    rfl

theorem EdgeRecord.faithful : Faithful toJson ofJson? where
  proper e := by
    apply Json.proper_record
    obtain ⟨source, target, method, caller⟩ := e
    cases method <;> cases caller <;> simp [Json.proper_text, Method.faithful.proper]
  read_write e := by
    obtain ⟨source, target, method, caller⟩ := e
    cases method <;> cases caller <;>
    · rw [ofJson?, toJson, Json.row?_record (by simp) (by simp)]
      simp only [Json.Row.optional?, Json.Row.defaulted?_cons, Json.Row.defaulted?_nil,
        Option.map_some, Option.map_none, Option.toList_some, Option.toList_none,
        List.cons_append, List.nil_append, String.reduceEq, if_true, if_false,
        Faithful.string.read_write, Method.optional?_toJson, Option.bind_eq_bind,
        Option.bind_some, Option.pure_def]

theorem GraphRecord.faithful : Faithful toJson ofJson? where
  proper g := Json.proper_record
    (by simp [faithful_node.list.proper, EdgeRecord.faithful.list.proper])
  read_write g := by
    rw [ofJson?, toJson, Json.row?_record (by simp) (by simp)]
    simp only [Json.Row.defaulted?_cons, String.reduceEq, if_true, if_false,
      faithful_node.list.read_write, EdgeRecord.faithful.list.read_write, Option.bind_eq_bind,
      Option.bind_some, Option.pure_def]

/-! ### Building -/

namespace GraphRecord

variable {W : Type} [Number W]

/-! What the first edge record does, whatever comes after it. -/

section Step
variable {b : Builder W} {e : EdgeRecord} {method caller : Method}

theorem addEdges_kept (h : e.methods = .ok (method, caller)) (hsource : e.source ∈ b.nodes)
    (htarget : e.target ∈ b.nodes) (rest : List EdgeRecord) :
    addEdges b (e :: rest) = addEdges { b with
      edges := b.edges ++ [⟨e.source, e.target, method, caller, Number.ofNat 1⟩] } rest := by
  rw [addEdges, h, Traced.bind_of_ok (Traced.result_ofExcept _)]
  simp only [b.addEdge_of_mem hsource htarget]
  rw [Traced.bind_of_ok (Traced.result_emitAll _)]
  rfl

theorem addEdges_dropped (h : e.methods = .ok (method, caller))
    (hends : ¬ (e.source ∈ b.nodes ∧ e.target ∈ b.nodes)) (rest : List EdgeRecord) :
    addEdges b (e :: rest) =
      ⟨Builder.skipped e.source e.target :: (addEdges b rest).events,
        (addEdges b rest).result⟩ := by
  rw [addEdges, h, Traced.bind_of_ok (Traced.result_ofExcept _)]
  simp only [b.addEdge_of_not_mem hends]
  rw [Traced.bind_of_ok (Traced.result_emitAll _)]
  rfl

theorem addEdges_rejected {fault : Fault} (h : e.methods = .error fault) (rest : List EdgeRecord) :
    addEdges b (e :: rest) = ⟨[], .error fault⟩ := by
  rw [addEdges, h, Traced.bind_of_error (Traced.result_ofExcept _)]
  rfl

end Step

/-- The edges between nodes are kept, and all others are reported. -/
theorem addEdges_ofEdge (b : Builder W) (edges : List (Edge W)) :
    addEdges b (edges.map EdgeRecord.ofEdge) =
      ⟨(edges.filter b.build.dangles).map fun e => Builder.skipped e.source e.target,
        .ok { b with
          edges := b.edges ++ (edges.filter fun e => !b.build.dangles e).map Edge.unweighted }⟩ := by
  induction edges generalizing b with
  | nil => simp [addEdges]; rfl
  | cons e edges ih =>
    have hmethods : (EdgeRecord.ofEdge e).methods = .ok (e.method, e.caller) := rfl
    rw [List.map_cons]
    cases hdangles : b.build.dangles e with
    | false =>
      obtain ⟨hsource, htarget⟩ := Graph.dangles_eq_false_iff.1 hdangles
      let added : Builder W := { b with edges := b.edges ++ [e.unweighted] }
      have hadded : added.build.dangles = b.build.dangles := rfl
      rw [addEdges_kept hmethods hsource htarget]
      change addEdges added _ = _
      rw [ih added, hadded]
      simp [hdangles, added]
    | true =>
      have hends : ¬ (e.source ∈ b.nodes ∧ e.target ∈ b.nodes) :=
        Classical.not_and_iff_not_or_not.2 (Graph.dangles_eq_true_iff.1 hdangles)
      rw [addEdges_dropped hmethods hends, ih]
      simp [hdangles, EdgeRecord.ofEdge]

theorem toGraph_ofGraph (g : Graph W) :
    (ofGraph g).toGraph =
      ⟨(g.edges.filter g.dangles).map fun e => Builder.skipped e.source e.target,
        .ok g.normal⟩ := by
  let b : Builder W := Builder.empty.addNodes g.nodes
  have hnodes : b.nodes = g.names := Builder.nodes_addNodes _ _
  have hedges : b.edges = [] := Builder.edges_addNodes _ _
  have hdangles : b.build.dangles = g.dangles := by
    apply Graph.dangles_congr
    intro name
    change name ∈ b.nodes ↔ name ∈ g.nodes
    rw [hnodes, Graph.names, List.mem_eraseDups]
  change addEdges b (g.edges.map EdgeRecord.ofEdge) >>= _ = _
  rw [addEdges_ofEdge, Traced.bind_of_ok rfl, hdangles, hedges]
  simp [Builder.build, hnodes, Graph.normal]

/-- Whatever is added, the graph stays in normal form. -/
theorem normal_addEdges {b b' : Builder W} {edges : List EdgeRecord}
    (h : (addEdges b edges).result = .ok b') (hb : b.build.Normal) : b'.build.Normal := by
  induction edges generalizing b with
  | nil =>
    cases h
    exact hb
  | cons e edges ih =>
    rw [addEdges, Traced.bind_result_eq_ok] at h
    obtain ⟨⟨method, caller⟩, -, h⟩ := h
    rw [Traced.bind_result_eq_ok] at h
    obtain ⟨-, -, h⟩ := h
    exact ih h (Builder.normal_addEdge hb _ _ _ _)

theorem normal_toGraph {record : GraphRecord} {g : Graph W} (h : record.toGraph.result = .ok g) :
    g.Normal := by
  rw [toGraph, Traced.bind_result_eq_ok] at h
  obtain ⟨b, hb, h⟩ := h
  cases h
  exact normal_addEdges hb (Builder.normal_addNodes record.nodes)

end GraphRecord

/-- A graph from a file is in normal form, also when it only takes the place of another. -/
theorem FileTree.normal_loadGraph {W : Type} [Number W] (files : FileTree) (path : String) :
    (files.loadGraph path : List (Event W) × Graph W).2.Normal := by
  cases hload : files.load path GraphRecord.ofJson? with
  | error failure =>
    simp only [loadGraph, hload]
    exact Graph.normal_empty
  | ok record =>
    cases hresult : (record.toGraph : Traced W (Graph W)).result with
    | error fault =>
      simp only [loadGraph, hload, hresult]
      exact Graph.normal_empty
    | ok g =>
      simp only [loadGraph, hload, hresult]
      exact GraphRecord.normal_toGraph hresult

/-! ### Saving and reading back -/

namespace Graph

variable {W : Type} [Number W]

/-- What is built from the text that is written of a graph. There is none if the text cannot be
read as the data of a graph. -/
def reload (write : Json → String) (g : Graph W) : Option (Traced W (Graph W)) :=
  ((Json.parse? (write (GraphRecord.ofGraph g).toJson)).bind GraphRecord.ofJson?).map
    GraphRecord.toGraph

theorem reload_eq_toGraph {write : Json → String}
    (hwrite : write = Json.compact ∨ write = Json.pretty) (g : Graph W) :
    g.reload write = some (GraphRecord.ofGraph g).toGraph := by
  rw [reload, GraphRecord.faithful.parse?_write hwrite, Option.map_some]

/-- The record of a normal graph makes this graph again, and nothing is reported. -/
theorem Normal.toGraph_ofGraph {g : Graph W} (h : g.Normal) :
    (GraphRecord.ofGraph g).toGraph = ⟨[], .ok g⟩ := by
  rw [GraphRecord.toGraph_ofGraph, filter_dangles_eq_nil h.attached, h.normal_eq, List.map_nil]

/-- A normal graph comes back as it is, and nothing is reported. -/
theorem Normal.reload_eq {write : Json → String}
    (hwrite : write = Json.compact ∨ write = Json.pretty) {g : Graph W} (h : g.Normal) :
    g.reload write = some ⟨[], .ok g⟩ := by
  rw [reload_eq_toGraph hwrite, h.toGraph_ofGraph]

/-- Every graph comes back in normal form, with one report on each dangling edge, and from then on
it stays as it is. So does every graph in normal form, as all graphs from files are. -/
theorem reload_eq_normal {write : Json → String}
    (hwrite : write = Json.compact ∨ write = Json.pretty) (g : Graph W) :
    g.reload write =
        some ⟨(g.edges.filter g.dangles).map fun e => Builder.skipped e.source e.target,
          .ok g.normal⟩ ∧
      g.normal.reload write = some ⟨[], .ok g.normal⟩ ∧
      (g.Normal → g.reload write = some ⟨[], .ok g⟩) ∧
      ∀ (files : FileTree) (path : String), (files.loadGraph path : _ × Graph W).2.Normal := by
  refine ⟨?_, g.normal_normal.reload_eq hwrite, fun h => h.reload_eq hwrite, ?_⟩
  · rw [reload_eq_toGraph hwrite, GraphRecord.toGraph_ofGraph]
  · exact fun files path => files.normal_loadGraph path

/-- One call of a class to itself, with a quote in its name. -/
theorem reload_eq_normal_loop :
    let g : Graph Rat :=
      ⟨["\"A\""], [⟨"\"A\"", "\"A\"", .blank, ⟨"f", [⟨"int", "n"⟩], "", "", "f(n)"⟩, 1⟩]⟩
    g.Normal ∧ g.reload Json.pretty = some ⟨[], .ok g⟩ := by
  intro g
  have hg : g.Normal := ⟨by decide, by decide, by decide⟩
  exact ⟨hg, (reload_eq_normal (.inr rfl) g).2.2.1 hg⟩

end Graph

end CallClusters
