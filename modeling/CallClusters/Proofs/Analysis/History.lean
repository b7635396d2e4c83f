import CallClusters.Proofs.Analysis.Footprint
import CallClusters.Proofs.Report.Counts

/-! Analyses that follow one another on one directory. Both reports are saved before the statistics,
so a run whose statistics fail puts its reports beside the summary of an earlier run. What holds of a
summary is that it describes the reports which the last successful run left, and these are still there
unless a later run has failed in its statistics. -/

namespace CallClusters

/-! ### What a report describes -/

section
variable {W : Type} [Number W]

/-- The report's part on the graph, and the part on the clusters that no threshold bears upon. -/
structure Report.Describes (r : Report W) (g : Graph W) (k : Clustering W) : Prop where
  graph : GraphStats.compute g = .ok r.graph
  clusterCount : r.clusters.clusterCount = k.clusters.length
  intraCount : r.clusters.intraCount = k.intraCount
  interCount : r.clusters.interCount = k.interCount
  totalCount : r.clusters.totalCount = k.intraCount + k.interCount
  allClusters : k.sizeSummary none = .ok r.clusters.allClusters
  lines : r.clusters.clusters = k.clusters.map Cluster.line

theorem Report.describes_of_compute {r : Report W} {g : Graph W} {k : Clustering W}
    {thresholds : List Nat} (h : (compute g k thresholds).result = .ok r) : r.Describes g k := by
  obtain ⟨hgraph, hclusters⟩ := parts_of_compute h
  obtain ⟨hall, -, hcounts⟩ := ClusterStats.parts_of_compute hclusters
  refine ⟨hgraph, ?_, ?_, ?_, ?_, hall, ?_⟩ <;> rw [hcounts]

theorem Report.Describes.nodeCount {r : Report W} {g : Graph W} {k : Clustering W}
    (h : r.Describes g k) : r.graph.nodeCount = g.nodes.length := by
  have hgraph := h.graph
  simp only [GraphStats.compute, Fault.bind_eq_ok_iff] at hgraph
  obtain ⟨_, -, _, -, _, -, hgraph⟩ := hgraph
  rw [← Except.ok.inj hgraph]

end

/-- A report starts with the number of nodes. -/
theorem Report.nodeCount_of_pretty {r r' : Report Float} (h : r.toJson.pretty = r'.toJson.pretty) :
    r.graph.nodeCount = r'.graph.nodeCount := by
  have htext := congrArg String.toList h
  simp only [Json.pretty, String.toList_ofList, Report.toJson, GraphStats.toJson, Json.record,
    Json.nat, List.map_cons, Json.render, Json.renderFields, List.append_assoc, List.cons_append,
    List.cons.injEq, List.append_cancel_left_eq, true_and] at htext
  have hread := congrArg Json.numeral? htext
  rw [Json.numeral?_text (Numeral.proper_ofNat _) (Json.stops_cons.2 rfl),
    Json.numeral?_text (Numeral.proper_ofNat _) (Json.stops_cons.2 rfl)] at hread
  have hdigits := congrArg Numeral.whole (Prod.mk.inj (Option.some.inj hread)).1
  rw [← Numeral.value_digits r.graph.nodeCount, ← Numeral.value_digits r'.graph.nodeCount]
  exact congrArg Numeral.value hdigits

/-! ### What a run leaves -/

/-- Findings as a run comes by them. -/
structure Findings.Sound (f : Findings) : Prop where
  normal : f.graph.Normal
  clustered : ∃ partitioner, (f.graph.identifyClusters partitioner).result = .ok f.clustering
  reported : ∃ thresholds, (Report.compute f.graph f.clustering thresholds).result = .ok f.report

namespace Config

variable {c call : Config} {partitioner : Partitioner} {files after start : FileTree}
  {findings : Findings} {g : Graph Float} {k : Clustering Float}

/-- The report describes what is loaded from the saved graph and the saved clusters. -/
def Describes (c : Config) (r : Report Float) (files : FileTree) : Prop :=
  ∃ g k, files.loadGraph c.layout.graphReport = ([], g) ∧
    files.loadClustering c.layout.clustersReport = .ok k ∧ r.Describes g k

/-- The summary, if there is one, describes the reports next to it. -/
def SummaryFits (c : Config) (files : FileTree) : Prop :=
  ∀ content, files.get? c.layout.summary = some (.file content) →
    ∃ r : Report Float, content = .text r.toJson.pretty ∧ c.Describes r files

theorem Saved.describes (h : c.Saved findings.graph findings.clustering files)
    (hsound : findings.Sound) : c.Describes findings.report files := by
  obtain ⟨partitioner, hk⟩ := hsound.clustered
  obtain ⟨thresholds, hreport⟩ := hsound.reported
  obtain ⟨hgraph, hclusters⟩ := h.reload hsound.normal hk
  exact ⟨_, _, hgraph, hclusters, Report.describes_of_compute hreport⟩

theorem Saved.of_layout (h : call.Saved g k files) (hlayout : call.layout = c.layout) :
    c.Saved g k files :=
  ⟨hlayout ▸ h.graph, hlayout ▸ h.clustering⟩

/-- The reports stay where other files change. -/
theorem Saved.of_changes {written : Place → Prop} (h : c.Saved g k files)
    (hchanges : FileTree.Changes written files after)
    (hgraph : ∀ place, FileTree.Leads files.here c.layout.graphReport place → ¬ written place)
    (hclusters : ∀ place, FileTree.Leads files.here c.layout.clustersReport place → ¬ written place) :
    c.Saved g k after :=
  ⟨hchanges.get?_file (fun place hplace => hgraph place ⟨files, rfl, hplace⟩) h.graph,
    hchanges.get?_file (fun place hplace => hclusters place ⟨files, rfl, hplace⟩) h.clustering⟩

/-- A successful run leaves its reports and its summary. -/
theorem saved_of_yields_run (h : (c.run partitioner).Yields files findings after) :
    findings.Sound ∧ c.Saved findings.graph findings.clustering after ∧
      after.get? c.layout.summary = some (.file (.text findings.report.toJson.pretty)) := by
  obtain ⟨made, -, g, hload, -, k, hk, withGraph, hgraph, withClusters, hclusters, drawn, hdrawn,
    report, hreport, hsummary, rfl⟩ := yields_run.1 h
  rw [Job.yields_saveSummary] at hsummary
  have hnormal : g.Normal := hload ▸ made.normal_loadGraph c.layout.graphInput
  have hdrawn : c.Saved g k drawn := (saved_of_yields hgraph hclusters).of_avoids hdrawn
    (avoids_draw (by decide) g k) (avoids_draw (by decide) g k)
  exact ⟨⟨hnormal, ⟨_, hk⟩, ⟨_, hreport⟩⟩, hdrawn.of_avoids hsummary
    (Job.avoids_save (by decide) (by decide) _) (Job.avoids_save (by decide) (by decide) _),
    Job.get?_of_yields_save hsummary⟩

section Failure
variable {failure : Failure} (h : (c.run partitioner).Stops files failure after)
  (hcause : failure.cause ≠ .system)
include h hcause

/-- A run that fails does not write a summary, and removes none. -/
theorem holds_summary_of_stops {content : Content} :
    after.Holds c.layout.summary content ↔ files.Holds c.layout.summary content := by
  cases stops_run.1 h with
  | refused _ hsystem => exact absurd hsystem hcause
  | empty hload _ => exact hload.changes.holds_iff fun _ _ => not_false
  | unclustered hload _ _ => exact hload.changes.holds_iff fun _ _ => not_false
  | unreported hload _ _ hgraph hclusters hdrawn _ =>
    rw [Job.yields_saveGraph] at hgraph
    rw [Job.yields_saveClustering] at hclusters
    calc after.Holds c.layout.summary content
      _ ↔ _ := hdrawn.holds_iff (avoids_draw (by decide) _ _) (by decide)
      _ ↔ _ := hclusters.holds_iff (Job.avoids_save (by decide) (by decide) _) (by decide)
      _ ↔ _ := hgraph.holds_iff (Job.avoids_save (by decide) (by decide) _) (by decide)
      _ ↔ _ := hload.changes.holds_iff fun _ _ => not_false

/-- Unless it fails in its statistics, it leaves the reports as they were. -/
theorem Saved.of_stops (hsaved : c.Saved g k files)
    (hfailure : ∀ fault, failure = .ofFault fault → ¬ fault.OfStatistic) : c.Saved g k after := by
  have hchanges : FileTree.Changes (fun _ => False) files after := by
    cases stops_run.1 h with
    | refused _ hsystem => exact absurd hsystem hcause
    | empty hload _ => exact hload.changes
    | unclustered hload _ _ => exact hload.changes
    | unreported _ hfull _ _ _ _ hfault =>
      exact absurd (Report.compute_result_eq_error hfull hfault) (hfailure _ rfl)
  exact hsaved.of_changes hchanges (fun _ _ => not_false) fun _ _ => not_false

end Failure

/-! ### Histories -/

/-- The files that tell of an analysis. -/
def reports (c : Config) : List String :=
  [c.layout.graphReport, c.layout.clustersReport, c.layout.summary]

/-- They all lie in the directory of the algorithm. -/
theorem back?_pop_of_mem_reports {here : Place} {path : String} {place : Place}
    (hpath : path ∈ c.reports) (h : FileTree.Leads here path place) :
    place.pop.back? = some c.algorithm.key := by
  obtain ⟨t, -, ht⟩ := h
  simp only [reports, List.mem_cons, List.not_mem_nil, or_false] at hpath
  obtain rfl | rfl | rfl := hpath
  · exact back?_pop_of_locate (by decide) ht
  · exact back?_pop_of_locate (by decide) ht
  · exact back?_pop_of_locate (by decide) ht

theorem key_ne_graph (algorithm : Algorithm) : algorithm.key ≠ "graph" := by
  cases algorithm <;> decide

theorem not_isInput_of_mem_reports {here : Place} {path : String} {place : Place}
    (hpath : path ∈ c.reports) (h : FileTree.Leads here path place) : ¬ c.IsInput place := by
  intro hinput
  have hkey := (back?_pop_of_mem_reports hpath h).symm.trans hinput.back?_pop
  exact key_ne_graph c.algorithm (Option.some.inj hkey)

/-- The results of successive calls on the directory and for the algorithm of `c`, the latest first,
and the tree that is left in the end. -/
inductive History (c : Config) (start : FileTree) :
    List (Except Failure Findings) → FileTree → Prop where
  | start : History c start [] start
  /-- Between calls any file but the reports may change. -/
  | edited {results : List (Except Failure Findings)} {files after : FileTree}
    (h : History c start results files)
    (hedit : FileTree.Changes
      (fun place => ∀ path ∈ c.reports, ¬ FileTree.Leads start.here path place) files after) :
    History c start results after
  /-- A call has a partition and thresholds of its own. It may fail, but the operating system does
  what it is asked to. -/
  | called {results : List (Except Failure Findings)} {files : FileTree}
    (h : History c start results files) (call : Config) (partitioner : Partitioner)
    (hcall : call.dataPath = c.dataPath ∧ call.algorithm = c.algorithm)
    (hsystem : ∀ failure, (call.run partitioner files).result = .error failure →
      failure.cause ≠ .system) :
    History c start ((call.run partitioner files).result :: results)
      (call.run partitioner files).files

theorem layout_eq (hcall : call.dataPath = c.dataPath ∧ call.algorithm = c.algorithm) :
    call.layout = c.layout := by
  simp only [layout, hcall.1, hcall.2]

theorem History.here {results : List (Except Failure Findings)}
    (h : c.History start results files) : files.here = start.here := by
  induction h with
  | start => rfl
  | edited _ hedit ih => exact hedit.here.trans ih
  | called _ call partitioner _ _ ih => exact (call.touches_run partitioner _).here.trans ih

/-! ### Where a summary comes from -/

/-- A successful call in a history. -/
structure Origin where
  /-- The results since. -/
  since : List (Except Failure Findings)
  findings : Findings
  /-- The results before. -/
  before : List (Except Failure Findings)
  /-- What the call left. -/
  left : FileTree

/-- The summary comes from that call, and no other has succeeded since. The call left it with the
reports that it describes, and they stay until a call fails in its statistics. -/
structure Origin.Explains (o : Origin) (c : Config) (start : FileTree) (content : Content)
    (results : List (Except Failure Findings)) (files : FileTree) : Prop where
  results_eq : results = o.since ++ .ok o.findings :: o.before
  failed : ∀ result ∈ o.since, ∃ failure, result = .error failure
  content_eq : content = .text o.findings.report.toJson.pretty
  sound : o.findings.Sound
  history : c.History start (.ok o.findings :: o.before) o.left
  written : o.left.get? c.layout.summary = some (.file content)
  saved : c.Saved o.findings.graph o.findings.clustering o.left
  kept : (∀ fault : Fault, fault.OfStatistic → .error (.ofFault fault) ∉ o.since) →
    c.Saved o.findings.graph o.findings.clustering files

namespace Origin

variable {o : Origin} {content : Content} {results : List (Except Failure Findings)}

theorem explains_of_yields (hcall : call.dataPath = c.dataPath ∧ call.algorithm = c.algorithm)
    (hhistory : c.History start (.ok findings :: results) after)
    (hrun : (call.run partitioner).Yields files findings after)
    (hsummary : after.Holds c.layout.summary content) :
    Explains ⟨[], findings, results, after⟩ c start content (.ok findings :: results) after := by
  have hlayout := layout_eq hcall
  obtain ⟨hsound, hsaved, hwritten⟩ := saved_of_yields_run hrun
  rw [hlayout] at hwritten
  obtain rfl := hsummary.unique (FileTree.holds_of_get? hwritten)
  have hsaved := hsaved.of_layout hlayout
  exact ⟨rfl, List.forall_mem_nil _, rfl, hsound, hhistory, hwritten, hsaved, fun _ => hsaved⟩

theorem Explains.edited (h : o.Explains c start content results files)
    (hedit : FileTree.Changes
      (fun place => ∀ path ∈ c.reports, ¬ FileTree.Leads files.here path place) files after) :
    o.Explains c start content results after where
  __ := h
  kept hnone := by
    refine (h.kept hnone).of_changes hedit (fun place hplace hwritten => ?_)
      fun place hplace hwritten => ?_
    · exact hwritten _ (by simp [reports]) hplace
    · exact hwritten _ (by simp [reports]) hplace

theorem Explains.failed_call {failure : Failure} (h : o.Explains c start content results files)
    (hcall : call.dataPath = c.dataPath ∧ call.algorithm = c.algorithm)
    (hrun : (call.run partitioner).Stops files failure after) (hcause : failure.cause ≠ .system) :
    Explains { o with since := .error failure :: o.since } c start content
      (.error failure :: results) after where
  __ := h
  results_eq := congrArg _ h.results_eq
  failed := List.forall_mem_cons.2 ⟨⟨failure, rfl⟩, h.failed⟩
  kept hnone := by
    have hlayout := layout_eq hcall
    have hbefore := h.kept fun fault hfault hmem =>
      hnone fault hfault (List.mem_cons_of_mem _ hmem)
    refine ((hbefore.of_layout hlayout.symm).of_stops hrun hcause ?_).of_layout hlayout
    rintro fault rfl hfault
    exact hnone fault hfault List.mem_cons_self

end Origin

namespace History

variable {results : List (Except Failure Findings)}

/-- Every summary has an origin, since there was none at the start. -/
theorem exists_origin (hstart : ∀ content, ¬ start.Holds c.layout.summary content)
    (h : c.History start results files) {content : Content}
    (hsummary : files.Holds c.layout.summary content) :
    ∃ o : Origin, o.Explains c start content results files := by
  induction h with
  | start => exact absurd hsummary (hstart content)
  | edited h hedit ih =>
    rw [← h.here] at hedit
    rw [hedit.holds_iff fun place hplace hwritten => hwritten _ (by simp [reports]) hplace]
      at hsummary
    obtain ⟨o, ho⟩ := ih hsummary
    exact ⟨o, ho.edited hedit⟩
  | @called results files h call partitioner hcall hsystem ih =>
    have hhistory := h.called call partitioner hcall hsystem
    cases hresult : (call.run partitioner files).result with
    -- Its own summary is now the only one, so nothing is asked of the history before.
    | ok findings =>
      rw [hresult] at hhistory
      exact ⟨_, Origin.explains_of_yields hcall hhistory ⟨hresult, rfl⟩ hsummary⟩
    | error failure =>
      have hstops : (call.run partitioner).Stops files failure _ := ⟨hresult, rfl⟩
      have hcause := hsystem failure hresult
      rw [← layout_eq hcall, holds_summary_of_stops hstops hcause, layout_eq hcall] at hsummary
      obtain ⟨o, ho⟩ := ih hsummary
      exact ⟨_, ho.failed_call hcall hstops hcause⟩

/-! ### Ways to go on -/

section
variable (h : c.History start results files)
  (hcall : call.dataPath = c.dataPath ∧ call.algorithm = c.algorithm)
include h

/-- The graph that is loaded is none of the reports. -/
theorem write_input {content : Content}
    (hwrite : files.write? c.layout.graphInput content = some after) :
    c.History start results after := by
  refine h.edited (.write? (fun place hplace path hpath hleads => ?_) hwrite)
  exact not_isInput_of_mem_reports hpath hleads ⟨files, hplace⟩

include hcall

theorem succeed (hrun : (call.run partitioner).Yields files findings after) :
    c.History start (.ok findings :: results) after := by
  obtain ⟨hresult, rfl⟩ := hrun
  have hsystem : ∀ failure, (call.run partitioner files).result = .error failure →
      failure.cause ≠ .system := by
    intro failure hfailure
    rw [hresult] at hfailure
    cases hfailure
  have hhistory := h.called call partitioner hcall hsystem
  rwa [hresult] at hhistory

theorem fail {failure : Failure} (hrun : (call.run partitioner).Stops files failure after)
    (hcause : failure.cause ≠ .system) : c.History start (.error failure :: results) after := by
  obtain ⟨hresult, rfl⟩ := hrun
  have hsystem : ∀ failure, (call.run partitioner files).result = .error failure →
      failure.cause ≠ .system := by
    intro other hother
    rw [hresult] at hother
    cases hother
    exact hcause
  have hhistory := h.called call partitioner hcall hsystem
  rwa [hresult] at hhistory

end

end History

/-! ### A summary that is out of date -/

/-- No report lies in the directory of the input. -/
theorem not_holds_inputTree {path : String} (hpath : path ∈ c.reports) (g : Graph Float)
    (content : Content) : ¬ (inputTree g).Holds path content := by
  rintro ⟨place, hplace, hfind⟩
  have hkey := back?_pop_of_mem_reports hpath hplace
  by_cases hfile : place = #["graph", "graph.json"]
  · rw [hfile] at hkey
    exact key_ne_graph c.algorithm (Option.some.inj hkey.symm)
  · by_cases hdirectory : place = #["graph"]
    · rw [hdirectory] at hfind
      cases hfind
    · simp [FileTree.find?, inputTree, List.lookup_cons, beq_false_of_ne hfile,
        beq_false_of_ne hdirectory] at hfind

/-- The input of an analysis of the working directory. -/
def inputDocument (g : Graph Float) : Place × Json :=
  (#["graph", "graph.json"], (GraphRecord.ofGraph g).toJson)

def graphDocument (g : Graph Float) : Place × Json :=
  (#["clusters", "louvain", "graph.json"], (GraphRecord.ofGraph g).toJson)

def clustersDocument (k : Clustering Float) : Place × Json :=
  (#["clusters", "louvain", "clusters.json"], (ClusteringRecord.ofClustering k).toJson)

def summaryDocument (r : Report Float) : Place × Json :=
  (#["clusters", "louvain", "summary.json"], r.toJson)

/-- The documents that were written since the directories were made, the latest first, and the
earlier ones. -/
def louvainTree (written earlier : List (Place × Json)) : FileTree where
  entries := written.map (fun document => (document.1, .file (.text document.2.pretty))) ++
    [(#["clusters", "louvain"], .directory), (#["clusters"], .directory), (#["graph"], .directory)] ++
    earlier.map fun document => (document.1, .file (.text document.2.pretty))
  here := #[]

section
variable (hpath : c.dataPath = "") (halgorithm : c.algorithm = .louvain)
include hpath halgorithm

theorem layout_louvain : c.layout = ⟨"graph/graph.json", "clusters/louvain",
    "clusters/louvain/clusters.json", "clusters/louvain/graph.json", "clusters/louvain/summary.json",
    "clusters/louvain/analysis.log", "clusters/louvain/plot"⟩ := by
  simp only [layout, hpath, halgorithm]
  decide

/-- Whatever a run finds, it can be written beside the input. -/
theorem exists_written (g : Graph Float) (k : Clustering Float) (r : Report Float) :
    ∃ made withGraph withClusters,
      (inputTree g).makeDirectories c.layout.clustersDirectory = (made, true) ∧
      (Job.saveGraph c.layout.graphReport g).Yields made () withGraph ∧
      (Job.saveClustering c.layout.clustersReport k).Yields withGraph () withClusters ∧
      (Job.saveSummary c.layout.summary r).Yields withClusters ()
        (louvainTree [summaryDocument r, clustersDocument k, graphDocument g] [inputDocument g]) := by
  simp only [layout_louvain hpath halgorithm, Job.yields_saveGraph, Job.yields_saveClustering,
    Job.yields_saveSummary, Job.yields_save]
  exact ⟨louvainTree [] [inputDocument g], louvainTree [graphDocument g] [inputDocument g],
    louvainTree [clustersDocument k, graphDocument g] [inputDocument g], rfl, ⟨_, rfl, rfl⟩,
    ⟨_, rfl, rfl⟩, ⟨_, rfl, rfl⟩⟩

/-- Then another input can be written, and the reports of a run on it. -/
theorem exists_rewritten (g g' : Graph Float) (k k' : Clustering Float) (r : Report Float) :
    ∃ edited withGraph withClusters,
      (louvainTree [summaryDocument r, clustersDocument k, graphDocument g]
        [inputDocument g]).write? c.layout.graphInput
          (.text (GraphRecord.ofGraph g').toJson.pretty) = some edited ∧
      edited.makeDirectories c.layout.clustersDirectory = (edited, true) ∧
      (Job.saveGraph c.layout.graphReport g').Yields edited () withGraph ∧
      (Job.saveClustering c.layout.clustersReport k').Yields withGraph () withClusters ∧
      withClusters.get? c.layout.summary = some (.file (.text r.toJson.pretty)) := by
  simp only [layout_louvain hpath halgorithm, Job.yields_saveGraph, Job.yields_saveClustering,
    Job.yields_save]
  exact ⟨louvainTree [inputDocument g', summaryDocument r, clustersDocument k, graphDocument g] [],
    louvainTree [graphDocument g', inputDocument g', summaryDocument r, clustersDocument k] [],
    louvainTree [clustersDocument k', graphDocument g', inputDocument g', summaryDocument r] [],
    rfl, rfl, ⟨_, rfl, rfl⟩, ⟨_, rfl, rfl⟩, rfl⟩

end

/-- If a run succeeds and the next one fails in its statistics on another graph, the summary of the
first lies next to the graph of the second. -/
theorem History.exists_outdated (c call : Config) {g g' : Graph Float} {k k' : Clustering Float}
    {r : Report Float} {fault : Fault} {partitioner' : Partitioner} (hpath : c.dataPath = "")
    (halgorithm : c.algorithm = .louvain) (hpages : c.skipPages = true)
    (hcall : call.dataPath = c.dataPath ∧ call.algorithm = c.algorithm)
    (hpages' : call.skipPages = true) (hg : g.Normal) (hfull : g.isEmpty = false)
    (hk : (g.identifyClusters partitioner).result = .ok k)
    (hreport : (Report.compute g k c.thresholds).result = .ok r) (hg' : g'.Normal)
    (hfull' : g'.isEmpty = false) (hk' : (g'.identifyClusters partitioner').result = .ok k')
    (hfault : (Report.compute g' k' call.thresholds).result = .error fault) :
    ∃ files, c.History (inputTree g) [.error (.ofFault fault), .ok ⟨g, k, r⟩] files ∧
      files.get? c.layout.summary = some (.file (.text r.toJson.pretty)) ∧
      files.loadGraph c.layout.graphReport = ([], g') := by
  obtain ⟨made, withGraph, withClusters, hmade, hgraph, hclusters, hsummary⟩ :=
    exists_written hpath halgorithm g k r
  obtain ⟨edited, withGraph', withClusters', hedit, hmade', hgraph', hclusters', hleft⟩ :=
    exists_rewritten hpath halgorithm g g' k k' r
  have hlayout := layout_eq hcall
  have hload : c.Loads (inputTree g) made g := loads_inputTree hg hpath hmade
  have hdrawn : (c.draw g k).Yields withClusters () withClusters := by simp [draw, hpages]
  have hrun := yields_run.2 ⟨made, hmade, g, hload.input, hfull, k, hk, withGraph, hgraph,
    withClusters, hclusters, withClusters, hdrawn, r, hreport, hsummary, rfl⟩
  have hhistory := (History.start.succeed ⟨rfl, rfl⟩ hrun).write_input hedit
  have hdrawn' : (call.draw g' k').Yields withClusters' () withClusters' := by
    simp [draw, hpages']
  have hinput := FileTree.get?_of_write? hedit
  rw [← hlayout] at hmade' hgraph' hclusters' hinput hleft ⊢
  have hstops := stops_run.2 (.unreported (loads_of_get? hmade' hg' hinput) hfull' hk' hgraph'
    hclusters' hdrawn' hfault)
  have hcause : (Failure.ofFault fault).cause ≠ .system := by
    intro hsystem
    cases hsystem
  exact ⟨withClusters', hhistory.fail hcall hstops hcause, hleft,
    ((saved_of_drawn hgraph' hclusters' hdrawn').reload hg' hk').1⟩

/-- A graph of one class is analysed. Then it has two, and the next run asks for clusters that are
larger than any. -/
theorem exists_outdated_history :
    let c : Config := ⟨"", .louvain, none, [0], false, true⟩
    let first : Graph Float := ⟨["A"], []⟩
    let second : Graph Float := ⟨["A", "B"], []⟩
    ∃ findings files, c.History (inputTree first)
        [.error (.ofFault (.noQualifyingClusters 1 "average cluster size")), .ok findings] files ∧
      findings.report.graph.nodeCount = 1 ∧
      files.get? c.layout.summary = some (.file (.text findings.report.toJson.pretty)) ∧
      files.loadGraph c.layout.graphReport = ([], second) := by
  intro c first second
  let call : Config := { c with thresholds := [1] }
  let k := Clustering.classified first [["A"]]
  let k' := Clustering.classified second [["A"]]
  have hk : (first.identifyClusters (.precomputed .louvain [["A"]])).result = .ok k :=
    Clustering.identifyClusters_result_eq_ok.2 ⟨_, rfl, by simp [Partition.Within, first], rfl⟩
  have hk' : (second.identifyClusters (.precomputed .louvain [["A"]])).result = .ok k' :=
    Clustering.identifyClusters_result_eq_ok.2 ⟨_, rfl, by simp [Partition.Within, second], rfl⟩
  obtain ⟨report, hreport⟩ := Fault.of?_eq_none_iff.1
    ((Report.of?_compute first k c.thresholds).trans (by decide))
  have hfault : (Report.compute second k' call.thresholds).result =
      .error (.noQualifyingClusters 1 "average cluster size") :=
    Fault.of?_eq_some_iff.1 ((Report.of?_compute second k' call.thresholds).trans (by decide))
  have hnormal : first.Normal := ⟨by decide, by decide, List.forall_mem_nil _⟩
  have hnormal' : second.Normal := ⟨by decide, by decide, List.forall_mem_nil _⟩
  obtain ⟨files, hhistory, hsummary, hgraph⟩ := History.exists_outdated c call rfl rfl rfl
    ⟨rfl, rfl⟩ rfl hnormal rfl hk hreport hnormal' rfl hk' hfault
  have hcount := (Report.describes_of_compute hreport).nodeCount
  exact ⟨_, files, hhistory, hcount, hsummary, hgraph⟩

/-! ### What a summary tells of -/

/-- Successive runs on one directory leave a summary that describes the reports which lay next to it
after the last successful run. If no run has failed in its statistics since, they still lie there. -/
theorem summary_follows_last_success {results : List (Except Failure Findings)}
    (hstart : ∀ content, ¬ start.Holds c.layout.summary content)
    (h : c.History start results files) {content : Content}
    (hsummary : files.get? c.layout.summary = some (.file content)) :
    ∃ failures findings earlier left, results = failures ++ .ok findings :: earlier ∧
      (∀ result ∈ failures, ∃ failure, result = .error failure) ∧
      content = .text findings.report.toJson.pretty ∧
      c.History start (.ok findings :: earlier) left ∧
      left.get? c.layout.summary = some (.file content) ∧
      c.Describes findings.report left ∧
      ((∀ fault : Fault, fault.OfStatistic → .error (.ofFault fault) ∉ failures) →
        c.Describes findings.report files) := by
  obtain ⟨o, ho⟩ := h.exists_origin hstart (FileTree.holds_of_get? hsummary)
  exact ⟨o.since, o.findings, o.before, o.left, ho.results_eq, ho.failed, ho.content_eq, ho.history,
    ho.written, ho.saved.describes ho.sound, fun hnone => (ho.kept hnone).describes ho.sound⟩

/-- Once a run has failed in its statistics, what the summary describes was left before. -/
theorem summary_follows_last_success_outdated :
    let c : Config := ⟨"", .louvain, none, [0], false, true⟩
    let start := inputTree ⟨["A"], []⟩
    ∃ findings files left, c.History start
        [.error (.ofFault (.noQualifyingClusters 1 "average cluster size")), .ok findings] files ∧
      files.get? c.layout.summary = some (.file (.text findings.report.toJson.pretty)) ∧
      c.History start [.ok findings] left ∧ c.Describes findings.report left := by
  intro c start
  obtain ⟨findings, files, hhistory, -, hsummary, -⟩ := exists_outdated_history
  have hstart (content : Content) : ¬ start.Holds c.layout.summary content :=
    not_holds_inputTree (c := c) (by simp [reports]) _ content
  obtain ⟨failures, findings', earlier, left, hresults, -, -, hleft, -, hdescribes, -⟩ :=
    summary_follows_last_success hstart hhistory hsummary
  obtain _ | ⟨failure, _ | ⟨other, failures⟩⟩ := failures
  · cases hresults
  · cases hresults
    exact ⟨findings, files, left, hhistory, hsummary, hleft, hdescribes⟩
  · simp at hresults

/-- The summary need not describe the reports next to it. -/
theorem not_summaryFits_outdated :
    let c : Config := ⟨"", .louvain, none, [0], false, true⟩
    let start := inputTree ⟨["A"], []⟩
    (∀ path ∈ c.reports, ∀ content, ¬ start.Holds path content) ∧
      ∃ results files, c.History start results files ∧ ¬ c.SummaryFits files := by
  intro c start
  refine ⟨fun path hpath content => not_holds_inputTree hpath _ content, ?_⟩
  obtain ⟨findings, files, hhistory, hcount, hsummary, hgraph⟩ := exists_outdated_history
  refine ⟨_, files, hhistory, fun hfits => ?_⟩
  obtain ⟨r, htext, g, k, hloaded, -, hdescribes⟩ := hfits _ hsummary
  cases hgraph.symm.trans hloaded
  have hsame := Report.nodeCount_of_pretty (Content.text.inj htext)
  rw [hcount, hdescribes.nodeCount] at hsame
  cases hsame

end Config

end CallClusters
