import CallClusters.Proofs.Analysis.Document

/-! Loading a graph is all or nothing. Where every edge record names its methods, the edges between
listed nodes are kept and each of the others is reported. The first edge record that does not, even
one whose ends are not listed, stops the building, and the empty graph takes the place of what was
built. So it does where the file holds no graph record. -/

namespace CallClusters

variable {W : Type} [Number W]

/-! ### Complete edges -/

namespace EdgeRecord

variable {edges : List EdgeRecord}

instance (e : EdgeRecord) : Decidable e.Complete := inferInstanceAs (Decidable (_ ∧ _))

theorem exists_map_ofEdge (h : ∀ e ∈ edges, e.Complete) :
    ∃ calls : List (Edge W), calls.map ofEdge = edges := by
  have hfault : Fault.of? (edges.mapM toEdge : Except Fault (List (Edge W))) = none := by
    rw [of?_mapM_toEdge, List.findSome?_eq_none_iff]
    exact fun e he => fault?_of_complete (h e he)
  obtain ⟨calls, hcalls⟩ := Fault.of?_eq_none_iff.1 hfault
  exact ⟨calls, Fault.map_eq_of_mapM_eq_ok ofEdge_of_toEdge hcalls⟩

theorem exists_first_incomplete (h : ∃ e ∈ edges, ¬ e.Complete) :
    ∃ before e after, edges = before ++ e :: after ∧ (∀ d ∈ before, d.Complete) ∧
      ¬ e.Complete := by
  have hsome : (edges.find? fun e => !decide e.Complete).isSome = true := by
    simpa [List.find?_isSome] using h
  obtain ⟨e, he⟩ := Option.isSome_iff_exists.1 hsome
  obtain ⟨hincomplete, before, after, rfl, hbefore⟩ := List.find?_eq_some_iff_append.1 he
  exact ⟨before, e, after, rfl, by simpa using hbefore, by simpa using hincomplete⟩

theorem methods_of_not_complete {e : EdgeRecord} (h : ¬ e.Complete) :
    e.methods = .error (.missingMethod e.source e.target e.missingField) :=
  Fault.of?_eq_some_iff.1 (fault?_of_not_complete h)

end EdgeRecord

/-! ### Building -/

namespace GraphRecord

/-- Both ends of the edge are listed as nodes. -/
def Attaches (record : GraphRecord) (e : EdgeRecord) : Prop :=
  e.source ∈ record.nodes ∧ e.target ∈ record.nodes

instance (record : GraphRecord) (e : EdgeRecord) : Decidable (record.Attaches e) :=
  inferInstanceAs (Decidable (_ ∧ _))

/-- A report on each of the edges that dangles. -/
def skips (record : GraphRecord) (edges : List EdgeRecord) : List (Event W) :=
  (edges.filter fun e => ¬ record.Attaches e).map fun e => Builder.skipped e.source e.target

omit [Number W] in
/-- The nodes alone decide which edges dangle. -/
theorem dangles_addNodes (record : GraphRecord) (e : Edge W) :
    (Builder.empty.addNodes record.nodes).build.dangles e =
      !decide (record.Attaches (EdgeRecord.ofEdge e)) := by
  have hends : (Builder.empty.addNodes record.nodes).build.dangles e = false ↔
      record.Attaches (EdgeRecord.ofEdge e) := by
    rw [Graph.dangles_eq_false_iff, Builder.build, Builder.nodes_addNodes]
    exact and_congr List.mem_eraseDups List.mem_eraseDups
  by_cases h : record.Attaches (EdgeRecord.ofEdge e)
  · rw [hends.2 h, decide_eq_true h, Bool.not_true]
  · rw [decide_eq_false h, Bool.not_false]
    exact (Bool.not_eq_false _).mp (mt hends.1 h)

theorem addEdges_append (b : Builder W) (edges rest : List EdgeRecord) :
    addEdges b (edges ++ rest) = addEdges b edges >>= fun b => addEdges b rest := by
  induction edges generalizing b with
  | nil => rfl
  | cons e edges ih => simp only [List.cons_append, addEdges, Traced.bind_assoc, ih]

/-- The graph has the listed nodes, each once, and those of the edges that lie between them. -/
structure Keeps (record : GraphRecord) (edges : List EdgeRecord) (g : Graph W) : Prop where
  nodes : g.nodes = record.nodes.eraseDups
  edges : g.edges.map EdgeRecord.ofEdge = edges.filter (record.Attaches ·)
  weight : ∀ e ∈ g.edges, e.weight = Number.ofNat 1

/-- Complete edges are all got through, whatever comes after them. -/
theorem addEdges_of_complete (record : GraphRecord) {edges : List EdgeRecord}
    (h : ∀ e ∈ edges, e.Complete) :
    ∃ b : Builder W, addEdges (Builder.empty.addNodes record.nodes) edges =
      ⟨record.skips edges, .ok b⟩ ∧ record.Keeps edges b.build := by
  obtain ⟨calls, rfl⟩ := EdgeRecord.exists_map_ofEdge (W := W) h
  let start : Builder W := Builder.empty.addNodes record.nodes
  have hnodes : start.nodes = record.nodes.eraseDups := Builder.nodes_addNodes _ _
  have hedges : start.edges = [] := Builder.edges_addNodes _ _
  let kept : List (Edge W) := calls.filter fun e => record.Attaches (EdgeRecord.ofEdge e)
  refine ⟨{ start with edges := kept.map Edge.unweighted }, ?_, hnodes, ?_, ?_⟩
  · change addEdges start _ = _
    have hdangles : start.build.dangles = _ := funext record.dangles_addNodes
    rw [addEdges_ofEdge]
    simp only [hdangles, hedges, Bool.not_not, List.nil_append, skips, List.filter_map,
      List.map_map, decide_not, kept]
    rfl
  · change (kept.map Edge.unweighted).map EdgeRecord.ofEdge = _
    rw [List.map_map, List.filter_map]
    rfl
  · intro e he
    obtain ⟨call, -, rfl⟩ := List.mem_map.1 he
    rfl

variable {record : GraphRecord}

theorem toGraph_of_complete (h : ∀ e ∈ record.edges, e.Complete) :
    ∃ g : Graph W, record.toGraph = ⟨record.skips record.edges, .ok g⟩ ∧
      record.Keeps record.edges g := by
  obtain ⟨b, hadded, hkeeps⟩ := addEdges_of_complete (W := W) record h
  refine ⟨b.build, ?_, hkeeps⟩
  rw [toGraph, hadded, Traced.ok_bind, Traced.events_pure, List.append_nil]
  rfl

theorem toGraph_of_not_complete {before after : List EdgeRecord} {e : EdgeRecord}
    (hedges : record.edges = before ++ e :: after) (hbefore : ∀ d ∈ before, d.Complete)
    (he : ¬ e.Complete) :
    (record.toGraph : Traced W (Graph W)) =
      ⟨record.skips before, .error (.missingMethod e.source e.target e.missingField)⟩ := by
  obtain ⟨b, hadded, -⟩ := addEdges_of_complete (W := W) record hbefore
  rw [toGraph, hedges, addEdges_append, hadded, Traced.ok_bind,
    addEdges_rejected (EdgeRecord.methods_of_not_complete he), List.append_nil]
  rfl

end GraphRecord

/-! ### Loading -/

namespace FileTree

/-- There is a file at the path, with the text of a graph record in it. -/
def Reads (files : FileTree) (path : String) (record : GraphRecord) : Prop :=
  ∃ text, files.get? path = some (.file (.text text)) ∧
    (Json.parse? text).bind GraphRecord.ofJson? = some record

variable {files : FileTree} {path : String}

theorem exists_load_eq_error (h : ∀ record, ¬ files.Reads path record) :
    ∃ failure, files.load path GraphRecord.ofJson? = .error failure := by
  cases hload : files.load path GraphRecord.ofJson? with
  | error failure => exact ⟨failure, rfl⟩
  | ok record => exact absurd (load_eq_ok_iff.1 hload) (h record)

/-- Loading gives the graph of all that the file holds, with a report on every dangling edge, or it
gives the empty graph. Then a rejection is the last report, and only the edges that dangle before
the first one that lacks a method were reported before. -/
theorem loadGraph_all_or_nothing (files : FileTree) (path : String) :
    (∀ record, files.Reads path record →
      ((∀ e ∈ record.edges, e.Complete) → ∃ g : Graph W,
        files.loadGraph path = (record.skips record.edges, g) ∧ record.Keeps record.edges g) ∧
      ((∃ e ∈ record.edges, ¬ e.Complete) → ∃ before e after,
        record.edges = before ++ e :: after ∧ (∀ d ∈ before, d.Complete) ∧ ¬ e.Complete ∧
        files.loadGraph (W := W) path = (record.skips before ++ [.inputRejected path
          (Fault.missingMethod e.source e.target e.missingField).message], .empty))) ∧
    ((∀ record, ¬ files.Reads path record) → ∃ failure,
      files.load path GraphRecord.ofJson? = .error failure ∧
      files.loadGraph (W := W) path = ([.inputRejected path failure.text], .empty)) := by
  refine ⟨fun record hreads => ?_, fun hnone => ?_⟩
  · have hload := load_eq_ok_iff.2 hreads
    refine ⟨fun hcomplete => ?_, fun hlacks => ?_⟩
    · obtain ⟨g, hgraph, hkeeps⟩ := GraphRecord.toGraph_of_complete (W := W) hcomplete
      exact ⟨g, by simp only [loadGraph, hload, hgraph], hkeeps⟩
    · obtain ⟨before, e, after, hedges, hbefore, he⟩ := EdgeRecord.exists_first_incomplete hlacks
      have hgraph := GraphRecord.toGraph_of_not_complete (W := W) hedges hbefore he
      exact ⟨before, e, after, hedges, hbefore, he, by simp only [loadGraph, hload, hgraph]⟩
  · obtain ⟨failure, hload⟩ := exists_load_eq_error hnone
    exact ⟨failure, hload, by simp only [loadGraph, hload]⟩

/-- An edge that dangles is reported. The next one dangles and lacks both of its methods, and for
this the whole file is rejected. -/
theorem loadGraph_all_or_nothing_mixed :
    let kept : EdgeRecord := ⟨"A", "B", some .blank, some .blank⟩
    let dangling : EdgeRecord := ⟨"A", "X", some .blank, some .blank⟩
    let bare : EdgeRecord := ⟨"X", "B", none, none⟩
    let record : GraphRecord := ⟨["A", "B"], [kept, dangling, bare, { dangling with caller := none }]⟩
    let files : FileTree := ⟨[(#["graph.json"], .file (.text record.toJson.pretty))], #[]⟩
    files.Reads "graph.json" record ∧ (∃ e ∈ record.edges, ¬ e.Complete) ∧
      files.loadGraph "graph.json" = ([Builder.skipped "A" "X", .inputRejected "graph.json"
        (Fault.missingMethod "X" "B" "link_method").message], (.empty : Graph Rat)) := by
  intro kept dangling bare record files
  have hreads : files.Reads "graph.json" record :=
    ⟨_, rfl, GraphRecord.faithful.parse?_write (.inr rfl) record⟩
  have hlacks : ∃ e ∈ record.edges, ¬ e.Complete := by decide
  refine ⟨hreads, hlacks, ?_⟩
  obtain ⟨before, e, after, hedges, hbefore, he, hload⟩ :=
    ((loadGraph_all_or_nothing (W := Rat) files "graph.json").1 record hreads).2 hlacks
  -- The first edge without its methods is the third one.
  obtain _ | ⟨d₁, _ | ⟨d₂, _ | ⟨d₃, before⟩⟩⟩ := before
  · cases hedges
    exact absurd (by decide) he
  · cases hedges
    exact absurd (by decide) he
  · cases hedges
    exact hload
  · simp only [record, List.cons_append, List.cons.injEq] at hedges
    obtain ⟨-, -, rfl, -⟩ := hedges
    exact absurd (hbefore bare (by simp)) (by decide)

end FileTree

end CallClusters
