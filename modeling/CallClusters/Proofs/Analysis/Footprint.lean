import CallClusters.Proofs.Analysis.Exits

/-! Which files an analysis leaves as they were. It never writes the graph that it loads. If it
stops before there are clusters, it has not written anything; if it stops after them, both reports
are there. -/

namespace CallClusters.Config

variable {c : Config} {partitioner : Partitioner} {files : FileTree} {place : Place}

/-! ### The input -/

/-- The path of the graph leads there, in some tree. -/
def IsInput (c : Config) (place : Place) : Prop :=
  ∃ t : FileTree, t.locate c.layout.graphInput = some place

theorem IsInput.back? (h : c.IsInput place) : place.back? = some "graph.json" := by
  obtain ⟨t, ht⟩ := h
  exact FileTree.back?_of_locate_join (by decide) ht

/-- A place in the clusters directory has the name of the algorithm's directory right above it. -/
theorem back?_pop_of_locate {t : FileTree} {name : String} (hname : Path.steps name = [.down name])
    (h : t.locate (Path.join c.layout.clustersDirectory name) = some place) :
    place.pop.back? = some c.algorithm.key := by
  have hkey : Path.steps c.algorithm.key = [.down c.algorithm.key] := by
    cases c.algorithm <;> decide
  obtain ⟨above, habove, rfl⟩ := FileTree.exists_push_of_locate_join hname h
  obtain ⟨root, -, rfl⟩ := FileTree.exists_push_of_walk_join hkey habove
  simp

theorem IsInput.back?_pop (h : c.IsInput place) : place.pop.back? = some "graph" := by
  obtain ⟨t, ht⟩ := h
  obtain ⟨above, habove, rfl⟩ := FileTree.exists_push_of_locate_join (by decide) ht
  obtain ⟨root, -, rfl⟩ := FileTree.exists_push_of_walk_join (by decide) habove
  simp

/-- The report on the graph has the name of the input, but it lies in another directory. -/
theorem not_isInput_of_graphReport {t : FileTree} (h : t.locate c.layout.graphReport = some place) :
    ¬ c.IsInput place := by
  intro hinput
  have hkey := (back?_pop_of_locate (by decide) h).symm.trans hinput.back?_pop
  revert hkey
  cases c.algorithm <;> decide

theorem touches_of_avoids {α : Type} {x : Job α} (h : x.Avoids "graph.json") :
    x.Touches fun place => ¬ c.IsInput place :=
  h.mono fun _ hplace hinput => hplace hinput.back?

theorem touches_saveGraphReport (c : Config) (g : Graph Float) :
    (Job.saveGraph c.layout.graphReport g).Touches fun place => ¬ c.IsInput place :=
  Job.touches_bind (Job.touches_save (fun _ _ => not_isInput_of_graphReport) _) fun _ =>
    Job.touches_remark _

/-- All other files of an analysis have names of their own. -/
theorem touches_saveClustersReport (c : Config) (k : Clustering Float) :
    (Job.saveClustering c.layout.clustersReport k).Touches fun place => ¬ c.IsInput place :=
  touches_of_avoids <| Job.touches_bind (Job.avoids_save (by decide) (by decide) _) fun _ =>
    Job.touches_remark _

theorem touches_saveSummary (c : Config) (r : Report Float) :
    (Job.saveSummary c.layout.summary r).Touches fun place => ¬ c.IsInput place :=
  touches_of_avoids <| Job.touches_bind (Job.avoids_save (by decide) (by decide) _) fun _ =>
    Job.touches_remark _

theorem touches_loadInput {written : Place → Prop} (path : String) :
    (Job.loadInput path).Touches written := by
  refine Job.touches_bind (Job.touches_emit _) fun _ => ?_
  refine Job.touches_bind (Job.touches_inspect _) fun loaded => ?_
  refine Job.touches_bind (Job.touches_emitAll _) fun _ => ?_
  refine Job.touches_bind (Job.touches_emit _) fun _ => ?_
  split
  · exact Job.touches_fail _
  · exact Job.touches_pure _

theorem touches_conclude (c : Config) (g : Graph Float) (k : Clustering Float) :
    (c.conclude g k).Touches fun place => ¬ c.IsInput place := by
  unfold conclude
  refine Job.touches_bind (Job.touches_ofTraced _) fun report => ?_
  refine Job.touches_bind (Job.touches_emitAll _) fun _ => ?_
  exact Job.touches_bind (c.touches_saveSummary report) fun _ => Job.touches_pure _

theorem touches_run (c : Config) (partitioner : Partitioner) :
    (c.run partitioner).Touches fun place => ¬ c.IsInput place := by
  rw [run_eq]
  refine Job.touches_bind (Job.touches_makeDirectories _ _) fun _ => ?_
  refine Job.touches_bind (touches_loadInput _) fun g => ?_
  refine Job.touches_bind (Job.touches_remark _) fun _ => ?_
  refine Job.touches_bind (Job.touches_ofTraced _) fun k => ?_
  refine Job.touches_bind (Job.touches_remark _) fun _ => ?_
  refine Job.touches_bind (c.touches_saveGraphReport g) fun _ => ?_
  refine Job.touches_bind (c.touches_saveClustersReport k) fun _ => ?_
  refine Job.touches_bind (touches_of_avoids (avoids_draw (by decide) g k)) fun _ => ?_
  exact c.touches_conclude g k

/-! ### Failures -/

/-- Drawing the pages does not touch the reports. -/
theorem saved_of_drawn {g : Graph Float} {k : Clustering Float}
    {made withGraph withClusters drawn : FileTree}
    (hgraph : (Job.saveGraph c.layout.graphReport g).Yields made () withGraph)
    (hclusters : (Job.saveClustering c.layout.clustersReport k).Yields withGraph () withClusters)
    (hdrawn : (c.draw g k).Yields withClusters () drawn) : c.Saved g k drawn :=
  (saved_of_yields hgraph hclusters).of_avoids hdrawn (avoids_draw (by decide) g k)
    (avoids_draw (by decide) g k)

/-- Whatever happens, the graph that an analysis loads stays as it was. Unless the operating system
is to blame, a run that fails does so for one of three reasons. The graph is empty, or no clusters
can be made of it: then no file has been changed. Or a statistic over the clusters has no value:
then both reports have been saved, and what is loaded from them is the graph of the run and its
clusters. -/
theorem run_spares_files (c : Config) (partitioner : Partitioner) (files : FileTree) :
    let out := c.run partitioner files
    FileTree.Changes (fun place => ¬ c.IsInput place) files out.files ∧
    ∀ failure, out.result = .error failure →
      (failure.cause = .system ∨ failure = Job.noInput c.layout.graphInput ∨
        ∃ fault, failure.cause = .fault fault ∧ (fault.OfPartition ∨ fault.OfStatistic)) ∧
      (failure = Job.noInput c.layout.graphInput →
        FileTree.Changes (fun _ => False) files out.files) ∧
      ∀ fault, failure.cause = .fault fault →
        (fault.OfPartition → FileTree.Changes (fun _ => False) files out.files) ∧
        (fault.OfStatistic →
          ∃ made g k, c.Loads files made g ∧ (g.identifyClusters partitioner).result = .ok k ∧
            out.files.loadGraph c.layout.graphReport = ([], g) ∧
            out.files.loadClustering c.layout.clustersReport = .ok k) := by
  intro out
  refine ⟨c.touches_run partitioner files, fun failure hfailure => ?_⟩
  have hexit : c.Exit partitioner files failure out.files := exit_of_stops ⟨hfailure, rfl⟩
  generalize out.files = after at hexit
  cases hexit with
  | refused hstops hcause =>
    refine ⟨.inl hcause, ?_, fun fault hfault => nomatch hcause.symm.trans hfault⟩
    rintro rfl
    cases hcause
  | empty hload hempty =>
    exact ⟨.inr (.inl rfl), fun _ => hload.changes, fun fault hfault => nomatch hfault⟩
  | unclustered hload hfull hfault =>
    have hpartition := Clustering.identifyClusters_result_eq_error hfault
    refine ⟨.inr (.inr ⟨_, rfl, .inl hpartition⟩), fun _ => hload.changes, ?_⟩
    rintro fault ⟨rfl⟩
    exact ⟨fun _ => hload.changes, fun hstatistic => absurd hpartition hstatistic.not_ofPartition⟩
  | unreported hload hfull hk hgraph hclusters hdrawn hfault =>
    have hstatistic := Report.compute_result_eq_error hfull hfault
    refine ⟨.inr (.inr ⟨_, rfl, .inr hstatistic⟩), nofun, ?_⟩
    rintro fault ⟨rfl⟩
    obtain ⟨hloaded, hclustering⟩ :=
      (saved_of_drawn hgraph hclusters hdrawn).reload hload.normal hk
    exact ⟨fun hpartition => absurd hpartition hstatistic.not_ofPartition,
      fun _ => ⟨_, _, _, hload, hk, hloaded, hclustering⟩⟩

/-- One class. With another name in the partition nothing is written, and a cluster of this class
has no more nodes than the second threshold. -/
theorem run_spares_files_single :
    let g : Graph Float := ⟨["A"], []⟩
    let files := inputTree g
    let c : Config := ⟨"", .louvain, none, [0, 1], false, true⟩
    let early := c.run (.precomputed .louvain [["B"]]) files
    let late := c.run (.precomputed .louvain [["A"]]) files
    early.result = .error (.ofFault (.unknownMember 1 "B")) ∧
      FileTree.Changes (fun _ => False) files early.files ∧
      late.result = .error (.ofFault (.noQualifyingClusters 1 "average cluster size")) ∧
      late.files.loadGraph c.layout.graphReport = ([], g) ∧
      late.files.loadClustering c.layout.clustersReport =
        .ok (Clustering.classified g [["A"]]) := by
  intro g files c early late
  let k := Clustering.classified g [["A"]]
  have hk : (g.identifyClusters (.precomputed .louvain [["A"]])).result = .ok k :=
    Clustering.identifyClusters_result_eq_ok.2 ⟨_, rfl, by simp [Partition.Within, g], rfl⟩
  have hfault : (Report.compute g k c.thresholds).result =
      .error (.noQualifyingClusters 1 "average cluster size") :=
    Fault.of?_eq_some_iff.1 ((Report.of?_compute g k c.thresholds).trans (by decide))
  obtain ⟨made, withGraph, withClusters, hmade, hgraph, hclusters⟩ :
      ∃ made withGraph withClusters,
        files.makeDirectories c.layout.clustersDirectory = (made, true) ∧
        (Job.saveGraph c.layout.graphReport g).Yields made () withGraph ∧
        (Job.saveClustering c.layout.clustersReport k).Yields withGraph () withClusters := by
    simp only [Job.yields_saveGraph, Job.yields_saveClustering, Job.yields_save, files, c]
    exact ⟨_, _, _, rfl, ⟨_, rfl, rfl⟩, ⟨_, rfl, rfl⟩⟩
  have hnormal : g.Normal := ⟨by decide, by decide, List.forall_mem_nil _⟩
  have hload : c.Loads files made g := loads_inputTree hnormal rfl hmade
  have hdrawn : (c.draw g k).Yields withClusters () withClusters := by simp [draw, c]
  have hearly : (c.run (.precomputed .louvain [["B"]])).Stops files _ made :=
    stops_run.2 (.unclustered hload rfl rfl)
  have hlate := stops_run.2 (.unreported hload rfl hk hgraph hclusters hdrawn hfault)
  obtain ⟨-, hfailure⟩ := run_spares_files c (.precomputed .louvain [["B"]]) files
  have hunchanged := ((hfailure _ hearly.1).2.2 _ rfl).1 (.inr ⟨_, _, rfl⟩)
  obtain ⟨-, hfailure⟩ := run_spares_files c (.precomputed .louvain [["A"]]) files
  obtain ⟨made', g', k', hload', hk', hloaded, hclustering⟩ :=
    ((hfailure _ hlate.1).2.2 _ rfl).2 (.inr ⟨_, _, rfl⟩)
  obtain ⟨-, rfl⟩ := hload.unique hload'
  cases hk.symm.trans hk'
  exact ⟨hearly.1, hunchanged, hlate.1, hloaded, hclustering⟩

end CallClusters.Config
