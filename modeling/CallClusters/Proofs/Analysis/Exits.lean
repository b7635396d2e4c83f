import CallClusters.Proofs.Analysis.Run

/-! How a job stops, and all the ways in which an analysis does: the operating system refuses to
make or to write something, the graph is empty, no clusters can be made, or a statistic has no
value. -/

namespace CallClusters

/-- The event among the notes of a job, if the note is one. -/
def Note.event? : Note → Option (Event Float)
  | .event e => some e
  | .remark _ => none

/-- What was told, without the remarks. -/
def Outcome.events {α : Type} (out : Outcome α) : List (Event Float) :=
  out.notes.filterMap Note.event?

namespace Job

variable {α β : Type} {files after : FileTree} {failure : Failure}

/-! ### Events -/

theorem events_bind_of_ok {x : Job α} {a : α} (h : (x files).result = .ok a) (f : α → Job β) :
    ((x >>= f) files).events = (x files).events ++ (f a (x files).files).events := by
  rw [bind_of_ok h]
  exact List.filterMap_append

theorem events_bind_of_error {x : Job α} (h : (x files).result = .error failure) (f : α → Job β) :
    ((x >>= f) files).events = (x files).events := by
  rw [bind_of_error h]
  rfl

theorem events_emitAll (events : List (Event Float)) (files : FileTree) :
    (emitAll events files).events = events := by
  have h : Note.event? ∘ Note.event = some := rfl
  rw [Outcome.events, emitAll, List.filterMap_map, h, List.filterMap_some]

theorem events_ofTraced (x : Traced Float α) : (ofTraced x files).events = x.events :=
  events_emitAll x.events files

/-! ### Failure -/

/-- The job fails, and leaves the tree as it is afterwards. -/
def Stops (x : Job α) (files : FileTree) (failure : Failure) (after : FileTree) : Prop :=
  (x files).result = .error failure ∧ (x files).files = after

/-- A sequence stops where one of its parts does. -/
@[simp] theorem stops_bind {x : Job α} {f : α → Job β} :
    (x >>= f).Stops files failure after ↔
      x.Stops files failure after ∨
        ∃ a between, x.Yields files a between ∧ (f a).Stops between failure after := by
  cases h : (x files).result with
  | error other => simp [Stops, Yields, bind_of_error h, h]
  | ok a => simp [Stops, Yields, bind_of_ok h, h]

theorem Stops.bind {x : Job α} (h : x.Stops files failure after) (f : α → Job β) :
    (x >>= f).Stops files failure after := stops_bind.2 (.inl h)

theorem Yields.stops_bind {x : Job α} {f : α → Job β} {a : α} {between : FileTree}
    (h : x.Yields files a between) (hf : (f a).Stops between failure after) :
    (x >>= f).Stops files failure after := Job.stops_bind.2 (.inr ⟨a, between, h, hf⟩)

theorem Yields.stops_then {x : Job Unit} {f : Unit → Job β} {between : FileTree}
    (h : x.Yields files () between) (hf : (f ()).Stops between failure after) :
    (x >>= f).Stops files failure after := h.stops_bind hf

@[simp] theorem stops_pure {a : α} : (pure a : Job α).Stops files failure after ↔ False :=
  iff_false_intro fun h => nomatch h.1

@[simp] theorem stops_note {n : Note} : (note n).Stops files failure after ↔ False :=
  iff_false_intro fun h => nomatch h.1

@[simp] theorem stops_remark {text : String} : (remark text).Stops files failure after ↔ False :=
  stops_note

@[simp] theorem stops_emit {event : Event Float} : (emit event).Stops files failure after ↔ False :=
  stops_note

@[simp] theorem stops_emitAll {events : List (Event Float)} :
    (emitAll events).Stops files failure after ↔ False :=
  iff_false_intro fun h => nomatch h.1

@[simp] theorem stops_fail {other : Failure} :
    (fail other : Job α).Stops files failure after ↔ other = failure ∧ files = after := by
  simp [Stops, fail]

@[simp] theorem stops_inspect {f : FileTree → Except Failure α} :
    (inspect f).Stops files failure after ↔ f files = .error failure ∧ files = after := Iff.rfl

@[simp] theorem stops_ofTraced {x : Traced Float α} :
    (ofTraced x).Stops files failure after ↔
      ∃ fault, x.result = .error fault ∧ .ofFault fault = failure ∧ files = after := by
  cases h : x.result <;> simp [Stops, ofTraced, h, Except.mapError]

/-! ### Jobs that only the operating system stops -/

/-- The job tells of no event, and nothing but the operating system stops it. -/
structure Quiet (x : Job α) : Prop where
  events : ∀ files, (x files).events = []
  system : ∀ {files failure}, (x files).result = .error failure → failure.cause = .system

theorem quiet_bind {x : Job α} {f : α → Job β} (hx : x.Quiet) (hf : ∀ a, (f a).Quiet) :
    (x >>= f).Quiet := by
  constructor
  · intro files
    cases h : (x files).result with
    | error failure => rw [events_bind_of_error h, hx.events]
    | ok a => rw [events_bind_of_ok h, hx.events, (hf a).events, List.append_nil]
  · intro files failure hfailure
    obtain ⟨h, -⟩ | ⟨a, between, -, h, -⟩ := stops_bind.1 (⟨hfailure, rfl⟩ : Stops _ _ _ _)
    · exact hx.system h
    · exact (hf a).system h

theorem quiet_pure (a : α) : (pure a : Job α).Quiet := ⟨fun _ => rfl, fun h => nomatch h⟩

theorem quiet_remark (text : String) : (remark text).Quiet :=
  ⟨fun _ => rfl, fun h => nomatch h⟩

theorem quiet_makeDirectories (path : String) (hcause : failure.cause = .system) :
    (makeDirectories path failure).Quiet := by
  constructor
  · intro files
    unfold makeDirectories
    split <;> rfl
  · intro files other h
    unfold makeDirectories at h
    split at h
    · cases h
    · cases h
      exact hcause

theorem quiet_write (path content : String) (hcause : failure.cause = .system) :
    (write path content failure).Quiet := by
  constructor
  · intro files
    unfold write
    split <;> rfl
  · intro files other h
    unfold write at h
    split at h
    · cases h
    · cases h
      exact hcause

theorem quiet_save (path : String) (value : Json) : (save path value).Quiet :=
  quiet_bind (makeParents_eq path _ ▸ quiet_makeDirectories _ rfl) fun _ => quiet_write _ _ rfl

theorem quiet_saveGraph (path : String) (g : Graph Float) : (saveGraph path g).Quiet :=
  quiet_bind (quiet_save path _) fun _ => quiet_remark _

theorem quiet_saveClustering (path : String) (k : Clustering Float) :
    (saveClustering path k).Quiet :=
  quiet_bind (quiet_save path _) fun _ => quiet_remark _

theorem quiet_saveSummary (path : String) (r : Report Float) : (saveSummary path r).Quiet :=
  quiet_bind (quiet_save path _) fun _ => quiet_remark _

theorem quiet_savePages (directory : String) (g : Graph Float) (k : Clustering Float)
    (blackSingles : Bool) : (savePages directory g k blackSingles).Quiet :=
  quiet_bind (quiet_remark _) fun _ => quiet_bind (quiet_makeDirectories _ rfl) fun _ =>
    quiet_bind (quiet_write _ _ rfl) fun _ => quiet_bind (quiet_write _ _ rfl) fun _ =>
    quiet_remark _

/-! ### The graph of an analysis -/

/-- The failure of an analysis without a node. -/
def noInput (path : String) : Failure :=
  .ofMessage ("graph at " ++ path ++ " is empty or could not be loaded")

theorem stops_loadInput {path : String} :
    (loadInput path).Stops files failure after ↔
      (files.loadGraph path : _ × Graph Float).2.isEmpty = true ∧ noInput path = failure ∧
        files = after := by
  cases hempty : (files.loadGraph path : _ × Graph Float).2.isEmpty <;>
    simp [loadInput, noInput, hempty]

end Job

namespace Config

variable {c : Config} {partitioner : Partitioner} {files after : FileTree} {failure : Failure}
  {g : Graph Float} {k : Clustering Float}

theorem quiet_draw (c : Config) (g : Graph Float) (k : Clustering Float) : (c.draw g k).Quiet := by
  unfold draw
  split
  · exact Job.quiet_pure ()
  · exact Job.quiet_savePages _ g k _

/-- The graph that an analysis loads, from the tree with the directory for its results. -/
structure Loads (c : Config) (files made : FileTree) (g : Graph Float) : Prop where
  directory : files.makeDirectories c.layout.clustersDirectory = (made, true)
  input : (made.loadGraph c.layout.graphInput).2 = g

theorem Loads.normal {made : FileTree} (h : c.Loads files made g) : g.Normal :=
  h.input ▸ made.normal_loadGraph c.layout.graphInput

theorem Loads.unique {made made' : FileTree} {g' : Graph Float} (h : c.Loads files made g)
    (h' : c.Loads files made' g') : made = made' ∧ g = g' := by
  obtain ⟨rfl, -⟩ := Prod.mk.inj (h.directory.symm.trans h'.directory)
  exact ⟨rfl, h.input.symm.trans h'.input⟩

/-- The directory is made without a change to a file. -/
theorem Loads.changes {made : FileTree} (h : c.Loads files made g) :
    FileTree.Changes (fun _ => False) files made := .of_makeDirectories h.directory

/-- A graph that was saved as the input is loaded as it is. -/
theorem loads_of_get? {made : FileTree}
    (hmade : files.makeDirectories c.layout.clustersDirectory = (made, true)) (hg : g.Normal)
    (hinput : files.get? c.layout.graphInput =
      some (.file (.text (GraphRecord.ofGraph g).toJson.pretty))) : c.Loads files made g := by
  have hchanges : FileTree.Changes (fun _ => False) files made := .of_makeDirectories hmade
  have hinput := hchanges.get?_file (fun _ _ => not_false) hinput
  exact ⟨hmade, by rw [FileTree.loadGraph_of_normal hg hinput]⟩

/-- Nothing but a graph, where an analysis of the working directory finds it. -/
def inputTree (g : Graph Float) : FileTree where
  entries := [(#["graph"], .directory),
    (#["graph", "graph.json"], .file (.text (GraphRecord.ofGraph g).toJson.pretty))]
  here := #[]

theorem loads_inputTree {made : FileTree} (hg : g.Normal) (hpath : c.dataPath = "")
    (hmade : (inputTree g).makeDirectories c.layout.clustersDirectory = (made, true)) :
    c.Loads (inputTree g) made g := by
  have hinput : c.layout.graphInput = "graph/graph.json" := by
    rw [layout, hpath]
    rfl
  refine loads_of_get? hmade hg ?_
  rw [hinput]
  rfl

/-- The ways in which an analysis stops, each with its failure and the tree that it leaves. -/
inductive Exit (c : Config) (partitioner : Partitioner) (files : FileTree) :
    Failure → FileTree → Prop where
  /-- Something could not be made or written. -/
  | refused {failure : Failure} {after : FileTree}
    (hstops : (c.run partitioner).Stops files failure after) (hcause : failure.cause = .system) :
    Exit c partitioner files failure after
  | empty {made : FileTree} {g : Graph Float} (hload : c.Loads files made g)
    (hempty : g.isEmpty = true) : Exit c partitioner files (Job.noInput c.layout.graphInput) made
  | unclustered {made : FileTree} {g : Graph Float} {fault : Fault} (hload : c.Loads files made g)
    (hfull : g.isEmpty = false) (hfault : (g.identifyClusters partitioner).result = .error fault) :
    Exit c partitioner files (.ofFault fault) made
  /-- Both reports and the pages are there already. -/
  | unreported {made withGraph withClusters drawn : FileTree} {g : Graph Float}
    {k : Clustering Float} {fault : Fault} (hload : c.Loads files made g)
    (hfull : g.isEmpty = false) (hk : (g.identifyClusters partitioner).result = .ok k)
    (hgraph : (Job.saveGraph c.layout.graphReport g).Yields made () withGraph)
    (hclusters : (Job.saveClustering c.layout.clustersReport k).Yields withGraph () withClusters)
    (hdrawn : (c.draw g k).Yields withClusters () drawn)
    (hfault : (Report.compute g k c.thresholds).result = .error fault) :
    Exit c partitioner files (.ofFault fault) drawn

theorem stops_conclude (h : (c.conclude g k).Stops files failure after) :
    failure.cause = .system ∨ ∃ fault, (Report.compute g k c.thresholds).result = .error fault ∧
      .ofFault fault = failure ∧ files = after := by
  simp only [conclude, Job.stops_bind, Job.stops_ofTraced, Job.stops_emitAll, Job.stops_pure,
    Job.yields_emitAll, and_false, exists_false, or_false, false_or, exists_const,
    exists_eq_left'] at h
  obtain hfault | ⟨report, _, -, h⟩ := h
  · exact .inr hfault
  · exact .inl ((Job.quiet_saveSummary _ _).system h.1)

theorem exit_of_stops (hstops : (c.run partitioner).Stops files failure after) :
    c.Exit partitioner files failure after := by
  have h := hstops
  simp only [run_eq, Job.stops_bind, Job.stops_remark, Job.stops_ofTraced, Job.stops_loadInput,
    Job.yields_remark, Job.yields_makeDirectories, Job.yields_ofTraced, Job.yields_loadInput,
    false_or, exists_const, exists_eq_left'] at h
  obtain h | ⟨made, hmade, h⟩ := h
  · exact .refused hstops ((Job.quiet_makeDirectories _ rfl).system h.1)
  obtain ⟨hempty, rfl, rfl⟩ | ⟨g, _, ⟨hfull, hg, rfl⟩, h⟩ := h
  · exact .empty ⟨hmade, rfl⟩ hempty
  have hload : c.Loads files made g := ⟨hmade, hg⟩
  obtain ⟨fault, hfault, rfl, rfl⟩ | ⟨k, _, ⟨hk, rfl⟩, h⟩ := h
  · exact .unclustered hload hfull hfault
  obtain h | ⟨⟨⟩, withGraph, hgraph, h⟩ := h
  · exact .refused hstops ((Job.quiet_saveGraph _ _).system h.1)
  obtain h | ⟨⟨⟩, withClusters, hclusters, h⟩ := h
  · exact .refused hstops ((Job.quiet_saveClustering _ _).system h.1)
  obtain h | ⟨⟨⟩, drawn, hdrawn, h⟩ := h
  · exact .refused hstops ((c.quiet_draw g k).system h.1)
  obtain hcause | ⟨fault, hfault, rfl, rfl⟩ := stops_conclude h
  · exact .refused hstops hcause
  · exact .unreported hload hfull hk hgraph hclusters hdrawn hfault

/-- There are no other ways, and each of them is one. -/
theorem stops_run :
    (c.run partitioner).Stops files failure after ↔ c.Exit partitioner files failure after := by
  refine ⟨exit_of_stops, fun h => ?_⟩
  rw [run_eq]
  cases h with
  | refused hstops hcause => rwa [← run_eq]
  | empty hload hempty =>
    refine (Job.yields_makeDirectories.2 hload.directory).stops_then ?_
    obtain ⟨-, rfl⟩ := hload
    exact (Job.stops_loadInput.2 ⟨hempty, rfl, rfl⟩).bind _
  | unclustered hload hfull hfault =>
    refine (Job.yields_makeDirectories.2 hload.directory).stops_then ?_
    refine (Job.yields_loadInput.2 ⟨hfull, hload.input, rfl⟩).stops_bind ?_
    refine (Job.yields_remark.2 rfl).stops_then ?_
    exact (Job.stops_ofTraced.2 ⟨_, hfault, rfl, rfl⟩).bind _
  | unreported hload hfull hk hgraph hclusters hdrawn hfault =>
    refine (Job.yields_makeDirectories.2 hload.directory).stops_then ?_
    refine (Job.yields_loadInput.2 ⟨hfull, hload.input, rfl⟩).stops_bind ?_
    refine (Job.yields_remark.2 rfl).stops_then ?_
    refine (Job.yields_ofTraced.2 ⟨hk, rfl⟩).stops_bind ?_
    refine (Job.yields_remark.2 rfl).stops_then ?_
    refine hgraph.stops_then (hclusters.stops_then (hdrawn.stops_then ?_))
    exact (Job.stops_ofTraced.2 ⟨_, hfault, rfl, rfl⟩).bind _

end Config

end CallClusters
