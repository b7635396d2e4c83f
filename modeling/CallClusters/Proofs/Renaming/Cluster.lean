import CallClusters.Proofs.Renaming.Partition
import CallClusters.Proofs.Report.Counts

/-! Clusters and reports under other names. Names are looked up, compared and passed on, and nothing
else is done with them: a renamed graph has the renamed clusters, reports the renamed events and stops
with the renamed fault, and its statistics are the same. -/

namespace CallClusters

variable {W : Type} {f : String → String} (hf : Function.Injective f)
include hf

namespace Clustering

/-! ### Building clusters -/

theorem clusterOfCommunity_rename (g : Graph W) (index : Nat) (community : List String) :
    clusterOfCommunity (g.rename f) index (community.map f) =
      (clusterOfCommunity g index community).rename f := by
  simp only [clusterOfCommunity, Cluster.rename, eraseDups_map_of_injective hf,
    Graph.edgesWithin_rename hf]

theorem firstUnknown_rename (g : Graph W) (index : Nat) (p : Partition) :
    firstUnknown (g.rename f) index (p.rename f) =
      (firstUnknown g index p).map fun (i, name) => (i, f name) := by
  induction p generalizing index with
  | nil => rfl
  | cons community p ih =>
    have hunknown : (fun name => !(g.rename f).contains name) ∘ f = fun name => !g.contains name :=
      funext fun name => congrArg (!·) (g.contains_rename hf name)
    rw [Partition.rename, List.map_cons, firstUnknown, firstUnknown, List.find?_map, hunknown]
    cases community.find? fun name => !g.contains name with
    | some name => rfl
    | none => exact ih (index + 1)

theorem mapIdx_clusterOfCommunity_rename (g : Graph W) (p : Partition) :
    (p.rename f).mapIdx (clusterOfCommunity (g.rename f)) =
      (p.mapIdx (clusterOfCommunity g)).map (Cluster.rename f) := by
  apply List.ext_getElem
  · simp [Partition.rename]
  · intro i hi hi'
    simp [Partition.rename, clusterOfCommunity_rename hf]

theorem ofPartition_rename (g : Graph W) (p : Partition) :
    ofPartition (g.rename f) (p.rename f) = (ofPartition g p).rename f (rename f) := by
  rw [ofPartition, ofPartition, firstUnknown_rename hf]
  refine Traced.rename_bind f (u := id) rfl fun _ => ?_
  cases firstUnknown g 0 p with
  | some found => rfl
  | none =>
    rw [Option.map_none, mapIdx_clusterOfCommunity_rename hf]
    rfl

/-! ### Crossing edges -/

variable (c : Clustering W)

theorem clusterOf_rename (name : String) :
    (c.rename f).clusterOf (f name) = (c.clusterOf name).map (Cluster.rename f) := by
  rw [clusterOf, clusterOf, rename, List.find?_map]
  congr 2
  funext k
  exact CallClusters.contains_rename hf k.nodes name

theorem crosses_rename (e : Edge W) : (c.rename f).crosses (e.rename f) = c.crosses e := by
  rw [crosses, crosses, Edge.rename, clusterOf_rename hf, clusterOf_rename hf]
  cases c.clusterOf e.source <;> cases c.clusterOf e.target <;> rfl

theorem crossingEdges_rename (g : Graph W) :
    (c.rename f).crossingEdges (g.rename f) = (c.crossingEdges g).map (Edge.rename f) := by
  have hsame : (c.rename f).crosses ∘ Edge.rename f = c.crosses := funext (crosses_rename hf c)
  rw [crossingEdges, crossingEdges, Graph.rename, List.filter_map, hsame]

theorem missingEvents_rename (name : String) :
    (c.rename f).missingEvents (f name) = (c.missingEvents name).map (Event.rename f) := by
  rw [missingEvents, missingEvents, clusterOf_rename hf]
  cases c.clusterOf name <;> rfl

theorem crossingEvents_rename (g : Graph W) :
    (c.rename f).crossingEvents (g.rename f) = (c.crossingEvents g).map (Event.rename f) := by
  rw [crossingEvents, crossingEvents, Graph.rename, List.flatMap_map, List.map_flatMap]
  congr 1
  funext e
  rw [List.map_append, ← missingEvents_rename hf, ← missingEvents_rename hf]
  rfl

end Clustering

/-! ### Statistics -/

namespace Graph

variable (g : Graph W)

theorem degrees_rename {endpoint : Edge W → String}
    (h : ∀ e, endpoint (e.rename f) = f (endpoint e)) :
    (g.rename f).degrees endpoint = g.degrees endpoint := by
  rw [degrees, degrees, names_rename hf, List.map_map]
  congr 1
  funext name
  rw [Function.comp_apply, rename, List.countP_map]
  congr 1
  funext e
  rw [Function.comp_apply, h, beq_rename hf]

theorem isolatedCount_rename : (g.rename f).isolatedCount = g.isolatedCount := by
  rw [isolatedCount_eq, isolatedCount_eq, rename, List.countP_map]
  congr 1
  funext name
  rw [Function.comp_apply, Bool.not_inj_iff, Bool.eq_iff_iff, List.contains_iff_mem,
    List.contains_iff_mem, mem_touched, mem_touched]
  simp [Edge.rename, hf.eq_iff]

theorem distinctEdgeCount_rename : (g.rename f).distinctEdgeCount = g.distinctEdgeCount := by
  have hends : (g.edges.map (Edge.rename f)).map Edge.ends =
      (g.edges.map Edge.ends).map (Prod.map f f) := by
    rw [List.map_map, List.map_map]
    rfl
  rw [distinctEdgeCount, rename, hends, eraseDups_map_of_injective (hf.prodMap hf), List.length_map]
  rfl

end Graph

variable [Number W]

theorem GraphStats.compute_rename (g : Graph W) : compute (g.rename f) = compute g :=
  compute_eq_of_counts (List.length_map f) (List.length_map _) (g.distinctEdgeCount_rename hf)
    (g.isolatedCount_rename hf) (.of_eq (g.degrees_rename hf fun _ => rfl))
    (.of_eq (g.degrees_rename hf fun _ => rfl))

/-- A report shows no names. -/
theorem Report.compute_rename (g : Graph W) (c : Clustering W) (thresholds : List Nat) :
    compute (g.rename f) (c.rename f) thresholds = compute g c thresholds := by
  have hinter : (c.rename f).interCount = c.interCount := List.length_map _
  refine compute_eq_of_lines (GraphStats.compute_rename hf g) (List.length_map _) ?_ hinter thresholds
  rw [Clustering.rename, List.map_map]
  congr 1
  funext k
  simp [Cluster.line, Cluster.rename, Cluster.size]

namespace Graph

/-- An injective renaming of the graph and of what the partitioner stores renames all that comes out:
the partition that is chosen, the clusters with their members and edges in the same places, or else
the fault, and every event on the way. Ids, methods and modularities stay as they are, and so does the
whole report on the clusters. -/
theorem identifyClusters_rename (g : Graph W) (partitioner : Partitioner) :
    (partitioner.rename f).partition (g.rename f).adjacency =
        (partitioner.partition g.adjacency).rename f (Partition.rename f) ∧
      (g.rename f).identifyClusters (partitioner.rename f) =
        (g.identifyClusters partitioner).rename f (Clustering.rename f) ∧
      ∀ (c : Clustering W) (thresholds : List Nat),
        Report.compute (g.rename f) (c.rename f) thresholds = Report.compute g c thresholds := by
  have hpartition : (partitioner.rename f).partition (g.rename f).adjacency =
      (partitioner.partition g.adjacency).rename f (Partition.rename f) := by
    rw [adjacency_rename hf]
    exact partitioner.partition_rename hf g.adjacency
  have halgorithm : (partitioner.rename f).algorithm = partitioner.algorithm := by
    cases partitioner <;> rfl
  refine ⟨hpartition, ?_, Report.compute_rename hf g⟩
  simp only [identifyClusters, adjacencyEvents_rename hf, hpartition, halgorithm]
  -- Stage by stage, what is reported and what is passed on are renamed alike.
  refine Traced.rename_bind f (u := id) rfl fun _ => ?_
  refine Traced.rename_bind f (u := id) rfl fun _ => ?_
  refine Traced.rename_bind f rfl fun p => ?_
  rw [adjacency_rename hf, Adjacency.modularity_rename hf]
  refine Traced.rename_bind f (u := id) rfl fun _ => ?_
  refine Traced.rename_bind f (u := id) rfl fun _ => ?_
  refine Traced.rename_bind f (Clustering.ofPartition_rename hf g p) fun c => ?_
  rw [Clustering.crossingEvents_rename hf, Clustering.crossingEdges_rename hf]
  refine Traced.rename_bind f (u := id) rfl fun _ => ?_
  refine Traced.rename_bind f (u := id) rfl fun _ => ?_
  exact Traced.rename_bind f (u := id) rfl fun _ => rfl

omit [Number W] hf in
/-- Two names are exchanged. One of them is no node, so that an edge dangles; the level with the higher
modularity lists it, and is chosen under either name. -/
theorem identifyClusters_rename_swap :
    let f : String → String := Equiv.swap "A" "Z"
    let call (s t : String) : Edge Rat := ⟨s, t, .blank, .blank, 1⟩
    let g : Graph Rat := ⟨["Z", "B", "C"], [call "Z" "B", call "C" "C", call "A" "B"]⟩
    let partitioner : Partitioner := .girvanNewman [[["Z"], ["B", "C"]], [["B", "Z"], ["C", "A"]]]
    Function.Injective f ∧
      ((g.rename f).identifyClusters (partitioner.rename f)).result = .error (.unknownMember 2 "Z") ∧
      ((g.rename f).identifyClusters (partitioner.rename f)).events = [.stageStarted .partition,
        .edgeSkipped "Z" "B" "endpoint is not a node of the graph", .baseModularity 0,
        .levelModularity 1 0, .levelModularity 2 (1 / 2), .levelSelected 2,
        .modularity "Girvan-Newman" (1 / 2), .stageFinished .partition, .stageStarted .adapt,
        .nodeNotFound "Z"] := by
  intro f call g partitioner
  have hf : Function.Injective f := (Equiv.swap "A" "Z").injective
  obtain ⟨-, hrun, -⟩ := identifyClusters_rename hf g partitioner
  rw [hrun]
  refine ⟨hf, by decide +kernel, by decide +kernel⟩

end Graph

end CallClusters
