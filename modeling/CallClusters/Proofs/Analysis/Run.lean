import CallClusters.Analysis.Run
import CallClusters.Proofs.Analysis.Document
import CallClusters.Proofs.Cluster.Build
import CallClusters.Proofs.Report.Faults

/-! What an analysis leaves behind. Its reports are the data that it found: they are loaded again as
they were, and clustering and reporting on them once more leads to the same. -/

namespace CallClusters

/-! ### Clusterings of normal graphs -/

section
variable {W : Type} [Number W]

namespace Clustering

theorem unweighted_clusterOfCommunity {g : Graph W} (h : g.Normal) (i : Nat) (m : List String) :
    (clusterOfCommunity g i m).unweighted = clusterOfCommunity g i m := by
  have hedges : (clusterOfCommunity g i m).intraEdges ⊆ g.edges := List.filter_subset_self _
  rw [Cluster.unweighted, h.map_unweighted hedges]

/-- All edges of a clustering are edges of the graph. -/
theorem unweighted_classified {g : Graph W} (h : g.Normal) (p : Partition) :
    (classified g p).unweighted = classified g p := by
  have hclusters : ∀ k ∈ (classified g p).clusters, k.unweighted = k := by
    intro k hk
    obtain ⟨i, hi, rfl⟩ := List.mem_mapIdx.1 hk
    exact unweighted_clusterOfCommunity h i _
  have hinter : (classified g p).interEdges ⊆ g.edges := List.filter_subset_self _
  rw [unweighted, List.map_congr_left hclusters, List.map_id', h.map_unweighted hinter]

theorem unweighted_of_identifyClusters {g : Graph W} (hg : g.Normal) {partitioner : Partitioner}
    {c : Clustering W} (h : (g.identifyClusters partitioner).result = .ok c) : c.unweighted = c := by
  obtain ⟨p, -, -, rfl⟩ := identifyClusters_result_eq_ok.1 h
  exact unweighted_classified hg p

end Clustering

end

/-! ### The jobs of an analysis -/

namespace Job

variable {files after : FileTree}

@[simp] theorem yields_saveGraph {path : String} {g : Graph Float} {u : Unit} :
    (saveGraph path g).Yields files u after ↔
      (save path (GraphRecord.ofGraph g).toJson).Yields files () after := by
  simp [saveGraph]

@[simp] theorem yields_saveClustering {path : String} {k : Clustering Float} {u : Unit} :
    (saveClustering path k).Yields files u after ↔
      (save path (ClusteringRecord.ofClustering k).toJson).Yields files () after := by
  simp [saveClustering]

@[simp] theorem yields_saveSummary {path : String} {r : Report Float} {u : Unit} :
    (saveSummary path r).Yields files u after ↔ (save path r.toJson).Yields files () after := by
  simp [saveSummary]

/-- An empty graph does not come through. -/
theorem yields_loadInput {path : String} {g : Graph Float} :
    (loadInput path).Yields files g after ↔
      g.isEmpty = false ∧ (files.loadGraph path).2 = g ∧ files = after := by
  constructor
  · intro h
    have h : (files.loadGraph path : _ × Graph Float).2.isEmpty = false ∧
        (files.loadGraph path).2 = g ∧ files = after := by simpa [loadInput] using h
    obtain ⟨hfull, rfl, rfl⟩ := h
    exact ⟨hfull, rfl, rfl⟩
  · rintro ⟨hfull, rfl, rfl⟩
    simpa [loadInput] using hfull

/-- The files that `savePages` writes. -/
def pageNames : List String := ["graph_without_clusters.html", "graph_with_clusters.html"]

theorem avoids_savePages {name : String} (hname : name ∉ pageNames) (directory : String)
    (g : Graph Float) (k : Clustering Float) (blackSingles : Bool) :
    (savePages directory g k blackSingles).Avoids name := by
  simp only [pageNames, List.mem_cons, List.not_mem_nil, or_false, not_or] at hname
  exact touches_bind (touches_remark _) fun _ =>
    touches_bind (touches_makeDirectories _ _) fun _ =>
    touches_bind (avoids_write (by decide) (Ne.symm hname.1) _ _) fun _ =>
    touches_bind (avoids_write (by decide) (Ne.symm hname.2) _ _) fun _ => touches_remark _

end Job

namespace Config

variable {c : Config} {partitioner : Partitioner} {files after : FileTree} {findings : Findings}

/-- Draws the pages, unless they are not asked for. -/
def draw (c : Config) (g : Graph Float) (k : Clustering Float) : Job Unit :=
  if c.skipPages then pure () else Job.savePages c.layout.plotDirectory g k c.blackSingles

/-- Reports on what was saved. -/
def conclude (c : Config) (g : Graph Float) (k : Clustering Float) : Job Findings := do
  let report ← Job.ofTraced (Report.compute g k c.thresholds)
  Job.emitAll report.events
  Job.saveSummary c.layout.summary report
  return ⟨g, k, report⟩

theorem run_eq (c : Config) (partitioner : Partitioner) :
    c.run partitioner = (do
      Job.makeDirectories c.layout.clustersDirectory
        ⟨["Failed to create " ++ c.layout.clustersDirectory], .system⟩
      let graph ← Job.loadInput c.layout.graphInput
      Job.remark ("Loaded " ++ graph.text)
      let clustering ← Job.ofTraced (graph.identifyClusters partitioner)
      Job.remark clustering.text
      Job.saveGraph c.layout.graphReport graph
      Job.saveClustering c.layout.clustersReport clustering
      c.draw graph clustering
      c.conclude graph clustering) := by
  cases h : c.skipPages <;> simp only [run, draw, h] <;> rfl

theorem yields_conclude {g : Graph Float} {k : Clustering Float} :
    (c.conclude g k).Yields files findings after ↔
      ∃ report, (Report.compute g k c.thresholds).result = .ok report ∧
        (Job.saveSummary c.layout.summary report).Yields files () after ∧
        ⟨g, k, report⟩ = findings := by
  simp [conclude]

/-- What a successful run went through, from the tree with the directory for its results to the tree
with its summary. -/
theorem yields_run :
    (c.run partitioner).Yields files findings after ↔
      ∃ made, files.makeDirectories c.layout.clustersDirectory = (made, true) ∧
      ∃ g, (made.loadGraph c.layout.graphInput).2 = g ∧ g.isEmpty = false ∧
      ∃ k, (g.identifyClusters partitioner).result = .ok k ∧
      ∃ withGraph, (Job.saveGraph c.layout.graphReport g).Yields made () withGraph ∧
      ∃ withClusters,
        (Job.saveClustering c.layout.clustersReport k).Yields withGraph () withClusters ∧
      ∃ drawn, (c.draw g k).Yields withClusters () drawn ∧
      ∃ report, (Report.compute g k c.thresholds).result = .ok report ∧
        (Job.saveSummary c.layout.summary report).Yields drawn () after ∧
        ⟨g, k, report⟩ = findings := by
  simp [run_eq, Job.yields_loadInput, yields_conclude]

theorem avoids_draw {name : String} (hname : name ∉ Job.pageNames) (g : Graph Float)
    (k : Clustering Float) : (c.draw g k).Avoids name := by
  unfold draw
  split
  · exact Job.touches_pure ()
  · exact Job.avoids_savePages hname _ g k _

/-! ### The reports -/

/-- Both reports lie where they are saved. -/
structure Saved (c : Config) (g : Graph Float) (k : Clustering Float) (files : FileTree) : Prop where
  graph : files.get? c.layout.graphReport =
    some (.file (.text (GraphRecord.ofGraph g).toJson.pretty))
  clustering : files.get? c.layout.clustersReport =
    some (.file (.text (ClusteringRecord.ofClustering k).toJson.pretty))

section Saved
variable {g : Graph Float} {k : Clustering Float}

theorem saved_of_yields {made between : FileTree}
    (hgraph : (Job.saveGraph c.layout.graphReport g).Yields made () between)
    (hclusters : (Job.saveClustering c.layout.clustersReport k).Yields between () after) :
    c.Saved g k after := by
  rw [Job.yields_saveGraph] at hgraph
  rw [Job.yields_saveClustering] at hclusters
  exact ⟨hclusters.get?_of_avoids (Job.avoids_save (by decide) (by decide) _) (by decide)
    (Job.get?_of_yields_save hgraph), Job.get?_of_yields_save hclusters⟩

/-- They stay there as long as files of other names are written. -/
theorem Saved.of_avoids {α : Type} {x : Job α} {a : α} (h : c.Saved g k files)
    (hx : x.Yields files a after) (hgraph : x.Avoids "graph.json")
    (hclusters : x.Avoids "clusters.json") : c.Saved g k after :=
  ⟨hx.get?_of_avoids hgraph (by decide) h.graph,
    hx.get?_of_avoids hclusters (by decide) h.clustering⟩

/-- Nothing is lost on a graph in normal form and a clustering of it. -/
theorem Saved.reload (h : c.Saved g k files) (hg : g.Normal)
    (hk : (g.identifyClusters partitioner).result = .ok k) :
    files.loadGraph c.layout.graphReport = ([], g) ∧
      files.loadClustering c.layout.clustersReport = .ok k := by
  refine ⟨FileTree.loadGraph_of_normal hg h.graph, ?_⟩
  rw [FileTree.loadClustering_of_get? h.clustering, Clustering.unweighted_of_identifyClusters hg hk]

end Saved

/-- The reports of a successful run are what it found. They are loaded again without loss and
without an event, the summary is the report on them, and clustering them anew changes nothing. -/
theorem run_reloads (h : (c.run partitioner files).result = .ok findings) :
    let after := (c.run partitioner files).files
    let reloaded : List (Event Float) × Graph Float := after.loadGraph c.layout.graphReport
    reloaded = ([], findings.graph) ∧
    ∃ clustering, after.loadClustering c.layout.clustersReport = .ok clustering ∧
      clustering = findings.clustering ∧
      (Report.compute reloaded.2 clustering c.thresholds).result = .ok findings.report ∧
      after.read? c.layout.summary = some findings.report.toJson.pretty ∧
      (reloaded.2.identifyClusters partitioner).result = .ok clustering := by
  intro after reloaded
  obtain ⟨made, -, g, hload, -, k, hk, withGraph, hgraph, withClusters, hclusters, drawn, hdrawn,
    report, hreport, hsummary, rfl⟩ := yields_run.1 ⟨h, rfl⟩
  rw [Job.yields_saveSummary] at hsummary
  have hdrawn : c.Saved g k drawn := (saved_of_yields hgraph hclusters).of_avoids hdrawn
    (avoids_draw (by decide) g k) (avoids_draw (by decide) g k)
  have hsaved : c.Saved g k after := hdrawn.of_avoids hsummary
    (Job.avoids_save (by decide) (by decide) _) (Job.avoids_save (by decide) (by decide) _)
  have hnormal : g.Normal := hload ▸ made.normal_loadGraph c.layout.graphInput
  obtain ⟨hreloaded, hclustering⟩ := hsaved.reload hnormal hk
  have hreloaded : reloaded = ([], g) := hreloaded
  refine ⟨hreloaded, k, hclustering, rfl, ?_, ?_, ?_⟩
  · rw [hreloaded]
    exact hreport
  · rw [FileTree.read?, Job.get?_of_yields_save hsummary]
  · rw [hreloaded]
    exact hk

/-- Two classes with a call between them, in a cluster each. -/
theorem run_reloads_pair :
    let g : Graph Float := ⟨["A", "B"], [⟨"A", "B", .blank, .blank, Number.ofNat 1⟩]⟩
    let input : String := (GraphRecord.ofGraph g).toJson.pretty
    let files : FileTree := ⟨[(#["graph"], .directory),
      (#["graph", "graph.json"], .file (.text input))], #[]⟩
    let c : Config := ⟨"", .louvain, none, [0], false, true⟩
    let partitioner : Partitioner := .precomputed .louvain [["A"], ["B"]]
    ∃ findings, (c.run partitioner files).result = .ok findings ∧
      (c.run partitioner files).files.loadGraph c.layout.graphReport = ([], findings.graph) ∧
      (c.run partitioner files).files.read? c.layout.summary =
        some findings.report.toJson.pretty := by
  intro g input files c partitioner
  let k := Clustering.classified g [["A"], ["B"]]
  have hnormal : g.Normal :=
    ⟨by decide, by decide, fun e he => by cases List.mem_singleton.1 he; rfl⟩
  have hk : (g.identifyClusters partitioner).result = .ok k :=
    Clustering.identifyClusters_result_eq_ok.2 ⟨_, rfl, by simp [Partition.Within, g], rfl⟩
  obtain ⟨report, hreport⟩ := Fault.of?_eq_none_iff.1
    ((Report.of?_compute g k c.thresholds).trans (by decide))
  obtain ⟨made, withGraph, withClusters, after, hmade, hgraph, hclusters, hsummary⟩ :
      ∃ made withGraph withClusters after,
        files.makeDirectories c.layout.clustersDirectory = (made, true) ∧
        (Job.saveGraph c.layout.graphReport g).Yields made () withGraph ∧
        (Job.saveClustering c.layout.clustersReport k).Yields withGraph () withClusters ∧
        (Job.saveSummary c.layout.summary report).Yields withClusters () after := by
    simp only [Job.yields_saveGraph, Job.yields_saveClustering, Job.yields_saveSummary,
      Job.yields_save, files, c]
    exact ⟨_, _, _, _, rfl, ⟨_, rfl, rfl⟩, ⟨_, rfl, rfl⟩, ⟨_, rfl, rfl⟩⟩
  have hinput : files.get? c.layout.graphInput = some (.file (.text input)) := by
    simp only [files, c]
    rfl
  have hchanges : FileTree.Changes (fun _ => False) files made := by
    rw [show made = (files.makeDirectories c.layout.clustersDirectory).1 by rw [hmade]]
    exact .makeDirectories files _
  have hload := FileTree.loadGraph_of_normal hnormal
    (hchanges.get?_file (fun _ _ => not_false) hinput)
  have hdraw : (c.draw g k).Yields withClusters () withClusters := by simp [draw, c]
  have hrun : (c.run partitioner).Yields files ⟨g, k, report⟩ after :=
    yields_run.2 ⟨made, hmade, g, by rw [hload], rfl, k, hk, withGraph, hgraph, withClusters,
      hclusters, withClusters, hdraw, report, hreport, hsummary, rfl⟩
  obtain ⟨hgraph, clustering, -, -, -, hsummary, -⟩ := run_reloads hrun.1
  exact ⟨_, hrun.1, hgraph, hsummary⟩

end Config

end CallClusters
