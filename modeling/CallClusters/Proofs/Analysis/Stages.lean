import CallClusters.Proofs.Analysis.Exits
import CallClusters.Proofs.Report.Consistency

/-! The stages of an analysis, as its events mark them. Every part of it carries the marks on from
where the part before left them, or stops on the way. So the marks of a whole run are a beginning of
those of a run that ends well, and the cause of a failure tells how many there are. -/

namespace CallClusters

variable {W : Type}

/-! ### Marks -/

/-- The start or the end of a stage. -/
def Event.isMark : Event W → Bool
  | .stageStarted _ | .stageFinished _ => true
  | _ => false

def marks (events : List (Event W)) : List (Event W) := events.filter Event.isMark

/-- The marks of a run that ends well: every stage starts and finishes before the next one. -/
def pipeline : List (Event W) :=
  [Stage.load, .partition, .adapt, .classify, .report].flatMap fun stage =>
    [.stageStarted stage, .stageFinished stage]

theorem marks_append (events later : List (Event W)) :
    marks (events ++ later) = marks events ++ marks later := List.filter_append ..

theorem marks_eq_nil {events : List (Event W)} (h : ∀ e ∈ events, e.isMark = false) :
    marks events = [] := by
  simpa [marks, List.filter_eq_nil_iff] using h

/-- How many marks come before a run stops, for the causes that belong to one stage. -/
def Cause.position? : Cause → Option Nat
  | .message _ => some 2
  | .fault .noLevels => some 3
  | .fault (.unknownMember ..) => some 5
  | .fault (.noClusters _) | .fault (.noQualifyingClusters ..) => some 9
  | _ => none

/-- The event right before a run stops, for the causes that have one. -/
def Cause.lastEvent? : Cause → Option (Event W)
  | .fault (.unknownMember _ name) => some (.nodeNotFound name)
  | _ => none

/-- The cause may have stopped a run after so many marks and after these events. -/
structure Cause.Fits (cause : Cause) (n : Nat) (events : List (Event W)) : Prop where
  position : ∀ k, cause.position? = some k → n = k
  last : ∀ e, cause.lastEvent? = some e → events.getLast? = some e

/-- What comes first does not matter. -/
theorem Cause.Fits.append {cause : Cause} {n : Nat} {later : List (Event W)}
    (h : cause.Fits n later) (events : List (Event W)) : cause.Fits n (events ++ later) := by
  refine ⟨h.position, fun e he => ?_⟩
  rw [List.getLast?_append, h.last e he, Option.some_or]

/-- What the operating system refuses, it may refuse anywhere. -/
theorem Cause.fits_system (n : Nat) (events : List (Event W)) : system.Fits n events :=
  ⟨nofun, nofun⟩

/-- A part of a run that comes after `start` marks. It goes on until there are `stop` of them,
unless a cause has stopped it before. -/
structure Progress (start stop : Nat) (events : List (Event W)) (cause? : Option Cause) : Prop where
  done : cause? = none → pipeline.take stop = pipeline.take start ++ marks events
  stopped : ∀ cause, cause? = some cause →
    ∃ n, pipeline.take n = pipeline.take start ++ marks events ∧ cause.Fits n events

/-- Once it has stopped, it does not matter how far it was to go. -/
theorem Progress.of_some {start middle stop : Nat} {events : List (Event W)} {cause : Cause}
    (h : Progress start middle events (some cause)) : Progress start stop events (some cause) :=
  ⟨nofun, h.stopped⟩

theorem Progress.of_fits {start stop n : Nat} {events : List (Event W)} {cause : Cause}
    (h : cause.Fits n events) (hn : pipeline.take n = pipeline.take start ++ marks events) :
    Progress start stop events (some cause) := by
  refine ⟨nofun, ?_⟩
  rintro _ ⟨⟩
  exact ⟨n, hn, h⟩

theorem Progress.append {start middle stop : Nat} {events later : List (Event W)}
    {cause? : Option Cause} (h : Progress start middle events none)
    (hlater : Progress middle stop later cause?) :
    Progress start stop (events ++ later) cause? := by
  have h : pipeline.take middle = pipeline.take start ++ marks events := h.done rfl
  constructor
  · intro hdone
    rw [hlater.done hdone, h, marks_append, List.append_assoc]
  · intro cause hstopped
    obtain ⟨n, hn, hfits⟩ := hlater.stopped cause hstopped
    refine ⟨n, ?_, hfits.append events⟩
    rw [hn, h, marks_append, List.append_assoc]

/-- No mark is made. -/
theorem Progress.of_unmarked {n : Nat} {events : List (Event W)} {cause? : Option Cause}
    (h : marks events = []) (hcause : ∀ cause, cause? = some cause → cause.Fits n events) :
    Progress n n events cause? := by
  have hn : pipeline.take n = pipeline.take n ++ marks events := by rw [h, List.append_nil]
  exact ⟨fun _ => hn, fun cause hstopped => ⟨n, hn, hcause cause hstopped⟩⟩

/-! ### Computations -/

namespace Traced

variable {α β : Type} {start stop n : Nat}

/-- The computation carries the marks on. -/
def Advances (start stop : Nat) (x : Traced W α) : Prop :=
  Progress start stop x.events ((Fault.of? x.result).map .fault)

theorem Advances.bind {x : Traced W α} {f : α → Traced W β} (middle : Nat)
    (hx : x.Advances start middle) (hf : ∀ a, (f a).Advances middle stop) :
    (x >>= f).Advances start stop := by
  unfold Advances at hx
  cases h : x.result with
  | error fault =>
    rw [h] at hx
    rw [bind_of_error h]
    exact hx.of_some
  | ok a =>
    rw [h] at hx
    rw [bind_of_ok h]
    exact hx.append (hf a)

theorem advances_of_unmarked {x : Traced W α} (h : marks x.events = [])
    (hfault : ∀ fault, x.result = .error fault → (Cause.fault fault).Fits n x.events) :
    x.Advances n n := by
  refine .of_unmarked h fun cause hcause => ?_
  obtain ⟨fault, hof, rfl⟩ := Option.map_eq_some_iff.1 hcause
  exact hfault fault (Fault.of?_eq_some_iff.1 hof)

theorem advances_pure (a : α) : (pure a : Traced W α).Advances n n :=
  advances_of_unmarked rfl nofun

theorem advances_emit {event : Event W}
    (h : pipeline.take stop = pipeline.take start ++ marks [event]) :
    (emit event).Advances start stop := ⟨fun _ => h, nofun⟩

theorem advances_emitAll {events : List (Event W)} (h : marks events = []) :
    (emitAll events).Advances n n := advances_of_unmarked h nofun

theorem advances_ofExcept {x : Except Fault α}
    (h : ∀ fault, x = .error fault → (Cause.fault fault).Fits n ([] : List (Event W))) :
    (ofExcept x : Traced W α).Advances n n := advances_of_unmarked rfl h

/-- Without a mark in either part there is none. -/
theorem marks_bind {x : Traced W α} {f : α → Traced W β} (hx : marks x.events = [])
    (hf : ∀ a, marks (f a).events = []) : marks (x >>= f).events = [] := by
  cases h : x.result with
  | error fault => rwa [bind_of_error h]
  | ok a => rw [bind_of_ok h, marks_append, hx, hf, List.nil_append]

end Traced

section Parts
variable [Number W] {n : Nat}

theorem Adjacency.advances_selectLevel (a : Adjacency W) (levels : List Partition) :
    (a.selectLevel levels).Advances 3 3 := by
  refine Traced.Advances.bind 3 (Traced.advances_emitAll ?scores) fun _ => ?_
  case scores =>
    apply marks_eq_nil
    rw [List.forall_mem_map]
    exact fun _ _ => rfl
  split
  · exact .bind 3 (Traced.advances_emit rfl) fun _ => Traced.advances_pure _
  · split
    · exact .bind 3 (Traced.advances_emit rfl) fun _ => Traced.advances_pure _
    · exact .of_fits ⟨by rintro _ ⟨⟩; rfl, nofun⟩ rfl

theorem Partitioner.advances_partition (p : Partitioner) (a : Adjacency W) :
    (p.partition a).Advances 3 3 := by
  cases p with
  | connectedComponents => exact Traced.advances_pure _
  | precomputed algorithm groups => exact Traced.advances_pure _
  | girvanNewman levels =>
    exact .bind 3 (Traced.advances_emit rfl) fun _ => a.advances_selectLevel levels

omit [Number W] in
theorem Clustering.advances_ofPartition (g : Graph W) (p : Partition) :
    (ofPartition g p).Advances 4 6 := by
  refine Traced.Advances.bind 5 (Traced.advances_emit rfl) fun _ => ?_
  split
  · -- The fault comes right after the report on the name.
    exact .of_fits ⟨by rintro _ ⟨⟩; rfl, by rintro _ ⟨⟩; rfl⟩ rfl
  · exact .bind 6 (Traced.advances_emit rfl) fun _ => Traced.advances_pure _

omit [Number W] in
theorem Clustering.marks_crossingEvents (c : Clustering W) (g : Graph W) :
    marks (c.crossingEvents g) = [] := by
  have hmissing (name : String) : ∀ e ∈ c.missingEvents name, e.isMark = false := by
    unfold missingEvents
    split
    · exact nofun
    · exact List.forall_mem_singleton.2 rfl
  refine marks_eq_nil fun e he => ?_
  obtain ⟨edge, -, he⟩ := List.mem_flatMap.1 he
  exact (List.mem_append.1 he).elim (hmissing _ e) (hmissing _ e)

theorem Graph.advances_identifyClusters (g : Graph W) (partitioner : Partitioner) :
    (g.identifyClusters partitioner).Advances 2 8 := by
  have hskipped : marks g.adjacencyEvents = [] := by
    apply marks_eq_nil
    simp only [adjacencyEvents, List.forall_mem_map]
    exact fun _ _ => rfl
  refine Traced.Advances.bind 3 (Traced.advances_emit rfl) fun _ => ?_
  refine Traced.Advances.bind 3 (Traced.advances_emitAll hskipped) fun _ => ?_
  refine Traced.Advances.bind 3 (partitioner.advances_partition _) fun p => ?_
  refine Traced.Advances.bind 3 (Traced.advances_emit rfl) fun _ => ?_
  refine Traced.Advances.bind 4 (Traced.advances_emit rfl) fun _ => ?_
  refine Traced.Advances.bind 6 (Clustering.advances_ofPartition g p) fun c => ?_
  refine Traced.Advances.bind 7 (Traced.advances_emit rfl) fun _ => ?_
  refine Traced.Advances.bind 7 (Traced.advances_emitAll (c.marks_crossingEvents g)) fun _ => ?_
  exact .bind 8 (Traced.advances_emit rfl) fun _ => Traced.advances_pure _

theorem ClusterStats.advances_compute (g : Graph W) (c : Clustering W) (thresholds : List Nat) :
    (compute g c thresholds).Advances 9 9 := by
  apply Traced.advances_of_unmarked
  · rw [events_compute]
    split <;> rfl
  · intro fault h
    obtain ⟨metric, rfl⟩ | ⟨threshold, metric, rfl⟩ := compute_result_eq_error h
    · exact ⟨by rintro _ ⟨⟩; rfl, nofun⟩
    · exact ⟨by rintro _ ⟨⟩; rfl, nofun⟩

theorem Report.advances_compute (g : Graph W) (c : Clustering W) (thresholds : List Nat) :
    (compute g c thresholds).Advances 8 10 := by
  have hgraph (fault : Fault) (h : GraphStats.compute g = .error fault) :
      (Cause.fault fault).Fits 9 ([] : List (Event W)) := by
    obtain ⟨-, metric, rfl⟩ := GraphStats.compute_eq_error h
    exact ⟨nofun, nofun⟩
  refine Traced.Advances.bind 9 (Traced.advances_emit rfl) fun _ => ?_
  refine Traced.Advances.bind 9 (Traced.advances_ofExcept hgraph) fun graph => ?_
  refine Traced.Advances.bind 9 (ClusterStats.advances_compute g c thresholds) fun clusters => ?_
  exact .bind 10 (Traced.advances_emit rfl) fun _ => Traced.advances_pure _

/-- Building a graph makes no marks. -/
theorem GraphRecord.marks_addEdges (b : Builder W) (edges : List EdgeRecord) :
    marks (addEdges b edges).events = [] := by
  induction edges generalizing b with
  | nil => rfl
  | cons e edges ih =>
    rw [addEdges]
    refine Traced.marks_bind rfl fun methods => Traced.marks_bind ?_ fun _ => ih _
    split <;> rfl

theorem FileTree.marks_loadGraph (files : FileTree) (path : String) :
    marks (files.loadGraph path : List (Event W) × Graph W).1 = [] := by
  have hbuilt (record : GraphRecord) : marks (record.toGraph : Traced W (Graph W)).events = [] :=
    Traced.marks_bind (GraphRecord.marks_addEdges _ _) fun _ => rfl
  unfold loadGraph
  split
  · rfl
  · simp only
    split
    · exact hbuilt _
    · rw [marks_append, hbuilt]
      rfl

end Parts

/-! ### Jobs -/

/-- The cause for which a job has failed, if it has. -/
def Outcome.cause? {α : Type} (out : Outcome α) : Option Cause :=
  match out.result with
  | .ok _ => none
  | .error failure => some failure.cause

namespace Job

variable {α β : Type} {start stop n : Nat} {files after : FileTree}

/-- The job carries the marks on, whatever tree it starts from. -/
def Advances (start stop : Nat) (x : Job α) : Prop :=
  ∀ files, Progress start stop (x files).events (x files).cause?

theorem Advances.bind {x : Job α} {f : α → Job β} (middle : Nat) (hx : x.Advances start middle)
    (hf : ∀ a, (f a).Advances middle stop) : (x >>= f).Advances start stop := by
  intro files
  have hx := hx files
  unfold Outcome.cause? at hx ⊢
  cases h : (x files).result with
  | error failure =>
    rw [h] at hx
    rw [events_bind_of_error h, bind_of_error h]
    exact hx.of_some
  | ok a =>
    rw [h] at hx
    rw [events_bind_of_ok h, bind_of_ok h]
    exact hx.append (hf a _)

theorem Quiet.advances {x : Job α} (h : x.Quiet) : x.Advances n n := by
  refine fun files => .of_unmarked (by rw [h.events]; rfl) fun cause hcause => ?_
  unfold Outcome.cause? at hcause
  split at hcause
  · cases hcause
  · rename_i failure hfailure
    cases hcause
    rw [h.system hfailure]
    exact Cause.fits_system n _

theorem advances_ofTraced {x : Traced Float α} (h : x.Advances start stop) :
    (ofTraced x).Advances start stop := by
  intro files
  have hcause : (ofTraced x files).cause? = (Fault.of? x.result).map .fault := by
    cases hx : x.result <;>
      simp [Outcome.cause?, ofTraced, hx, Except.mapError, Fault.of?, Failure.ofFault]
  rw [events_ofTraced, hcause]
  exact h

theorem advances_emitAll {events : List (Event Float)} (h : marks events = []) :
    (emitAll events).Advances n n := by
  intro files
  rw [← events_emitAll events files] at h
  exact .of_unmarked h nofun

theorem advances_emit {event : Event Float}
    (h : pipeline.take stop = pipeline.take start ++ marks [event]) :
    (emit event).Advances start stop := fun _ => ⟨fun _ => h, nofun⟩

theorem advances_inspect_bind {look : FileTree → α} {f : α → Job β}
    (hf : ∀ files, (f (look files)).Advances start stop) :
    (inspect (fun files => .ok (look files)) >>= f).Advances start stop := by
  intro files
  rw [events_bind_of_ok rfl, bind_of_ok rfl]
  exact hf files files

/-- Whether the graph is empty is asked after it has been loaded. -/
theorem advances_loadInput (path : String) : (loadInput path).Advances 0 2 := by
  refine Advances.bind 1 (advances_emit rfl) fun _ => ?_
  refine advances_inspect_bind fun files => ?_
  have hmarks : marks (files.loadGraph path : _ × Graph Float).1 = [] := files.marks_loadGraph path
  generalize (files.loadGraph path : _ × Graph Float) = loaded at hmarks ⊢
  refine Advances.bind 1 (advances_emitAll hmarks) fun _ => ?_
  refine Advances.bind 2 (advances_emit rfl) fun _ => ?_
  split
  · exact fun _ => .of_fits ⟨by rintro _ ⟨⟩; rfl, nofun⟩ rfl
  · exact (quiet_pure _).advances

end Job

namespace Config

variable {c : Config} {partitioner : Partitioner} {files : FileTree}

theorem advances_conclude (c : Config) (g : Graph Float) (k : Clustering Float) :
    (c.conclude g k).Advances 8 10 := by
  have hreport := Report.advances_compute g k c.thresholds
  have hlines (report : Report Float) : marks report.events = [] := by
    apply marks_eq_nil
    simp only [Report.events, List.forall_mem_map]
    exact fun _ _ => rfl
  unfold conclude
  refine Job.Advances.bind 10 (Job.advances_ofTraced hreport) fun report => ?_
  refine Job.Advances.bind 10 (Job.advances_emitAll (hlines report)) fun _ => ?_
  exact .bind 10 (Job.quiet_saveSummary _ report).advances fun _ => (Job.quiet_pure _).advances

theorem advances_run (c : Config) (partitioner : Partitioner) :
    (c.run partitioner).Advances 0 10 := by
  rw [run_eq]
  refine Job.Advances.bind 0 (Job.quiet_makeDirectories _ rfl).advances fun _ => ?_
  refine Job.Advances.bind 2 (Job.advances_loadInput _) fun g => ?_
  refine Job.Advances.bind 2 (Job.quiet_remark _).advances fun _ => ?_
  refine Job.Advances.bind 8 (Job.advances_ofTraced (g.advances_identifyClusters _)) fun k => ?_
  refine Job.Advances.bind 8 (Job.quiet_remark _).advances fun _ => ?_
  refine Job.Advances.bind 8 (Job.quiet_saveGraph _ g).advances fun _ => ?_
  refine Job.Advances.bind 8 (Job.quiet_saveClustering _ k).advances fun _ => ?_
  refine Job.Advances.bind 8 (c.quiet_draw g k).advances fun _ => ?_
  exact c.advances_conclude g k

/-- Why a run failed tells how many marks it has made. -/
theorem exists_fits_of_failure {failure : Failure}
    (h : (c.run partitioner files).result = .error failure) :
    ∃ n, marks (c.run partitioner files).events = pipeline.take n ∧
      failure.cause.Fits n (c.run partitioner files).events := by
  have hrun := c.advances_run partitioner files
  rw [Outcome.cause?, h] at hrun
  obtain ⟨n, hn, hfits⟩ := hrun.stopped _ rfl
  exact ⟨n, hn.symm, hfits⟩

theorem marks_of_success {findings : Findings}
    (h : (c.run partitioner files).result = .ok findings) :
    marks (c.run partitioner files).events = pipeline := by
  have hrun := c.advances_run partitioner files
  rw [Outcome.cause?, h] at hrun
  exact (hrun.done rfl).symm

/-- The marks are those of the causes for which this is known. -/
theorem marks_of_failure {failure : Failure} {k : Nat}
    (h : (c.run partitioner files).result = .error failure)
    (hk : failure.cause.position? = some k) :
    marks (c.run partitioner files).events = pipeline.take k := by
  obtain ⟨n, hn, hfits⟩ := exists_fits_of_failure h
  rw [hn, hfits.position k hk]

/-- Whatever a run comes to, its stages start and finish one after the other, and no stage is left
out before the last one that has started. A run with a result has gone through all of them. An empty
graph stops it when it has been loaded, an empty sequence of levels while the graph is partitioned,
an unknown name while the clusters are made, right after the report on this name, and a statistic
without a value while the report is made. -/
theorem run_marks_stages (c : Config) (partitioner : Partitioner) (files : FileTree) :
    let out := c.run partitioner files
    marks out.events <+: pipeline ∧
    (∀ findings, out.result = .ok findings → marks out.events = pipeline) ∧
    (∀ made g, c.Loads files made g → g.isEmpty = true →
      out.result = .error (Job.noInput c.layout.graphInput)) ∧
    ∀ failure, out.result = .error failure →
      (failure = Job.noInput c.layout.graphInput →
        (marks out.events).getLast? = some (.stageFinished .load)) ∧
      (failure.cause = .fault .noLevels →
        (marks out.events).getLast? = some (.stageStarted .partition)) ∧
      (∀ id name, failure.cause = .fault (.unknownMember id name) →
        (marks out.events).getLast? = some (.stageStarted .adapt) ∧
        out.events.getLast? = some (.nodeNotFound name)) ∧
      ∀ fault, failure.cause = .fault fault → fault.OfStatistic →
        (marks out.events).getLast? = some (.stageStarted .report) := by
  intro out
  refine ⟨?_, fun findings => marks_of_success, ?_, fun failure hfailure => ⟨?_, ?_, ?_, ?_⟩⟩
  · cases h : out.result with
    | error failure =>
      obtain ⟨n, hn, -⟩ := exists_fits_of_failure h
      rw [hn]
      exact List.take_prefix n pipeline
    | ok findings => rw [marks_of_success h]
  · intro made g hload hempty
    exact (stops_run.2 (.empty hload hempty)).1
  · rintro rfl
    rw [marks_of_failure hfailure rfl]
    rfl
  · intro hcause
    rw [marks_of_failure hfailure (by rw [hcause]; rfl)]
    rfl
  · intro id name hcause
    obtain ⟨n, hn, hfits⟩ := exists_fits_of_failure hfailure
    rw [hcause] at hfits
    rw [hn, hfits.position 5 rfl]
    exact ⟨rfl, hfits.last _ rfl⟩
  · intro fault hcause hstatistic
    have hposition : failure.cause.position? = some 9 := by
      obtain ⟨metric, rfl⟩ | ⟨threshold, metric, rfl⟩ := hstatistic <;> rw [hcause] <;> rfl
    rw [marks_of_failure hfailure hposition]
    rfl

/-- The second community lists a name that is no class of the graph. -/
theorem run_marks_stages_unknown :
    let g : Graph Float := ⟨["A"], []⟩
    let files := inputTree g
    let c : Config := ⟨"", .louvain, none, Config.defaultThresholds, true, false⟩
    let out := c.run (.precomputed .louvain [["A"], ["B"]]) files
    out.result = .error (.ofFault (.unknownMember 2 "B")) ∧
      marks out.events <+: pipeline ∧
      (marks out.events).getLast? = some (.stageStarted .adapt) ∧
      out.events.getLast? = some (.nodeNotFound "B") := by
  intro g files c out
  obtain ⟨made, hmade⟩ :
      ∃ made, files.makeDirectories c.layout.clustersDirectory = (made, true) := by
    simp only [files, c]
    exact ⟨_, rfl⟩
  have hnormal : g.Normal := ⟨by decide, by decide, List.forall_mem_nil _⟩
  have hload : c.Loads files made g := loads_inputTree hnormal rfl hmade
  have hfault : (g.identifyClusters (.precomputed .louvain [["A"], ["B"]])).result =
      .error (.unknownMember 2 "B") := rfl
  have hstops := stops_run.2 (.unclustered hload rfl hfault)
  obtain ⟨hbegins, -, -, hfailure⟩ := run_marks_stages c _ files
  exact ⟨hstops.1, hbegins, (hfailure _ hstops.1).2.2.1 2 "B" rfl⟩

end Config

end CallClusters
