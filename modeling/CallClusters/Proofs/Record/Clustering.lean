import CallClusters.Proofs.Fault
import CallClusters.Proofs.Record.Graph
import CallClusters.Record.Clustering

/-! Saving a clustering and reading it back. Nothing but the weights is lost on the way, ids,
members and methods are all kept. A record makes a clustering exactly when all its edges name
their methods, and the first one that does not stops the making. -/

namespace CallClusters

open Json (Faithful)

/-! ### Records and their data -/

theorem ClusterRecord.faithful : Faithful toJson ofJson? where
  proper k := Json.proper_record
    (by simp [Json.proper_nat, faithful_node.list.proper, EdgeRecord.faithful.list.proper])
  read_write k := by
    rw [ofJson?, toJson, Json.row?_record (by simp) (by simp)]
    simp only [Json.Row.required?_cons, Json.Row.defaulted?_cons, String.reduceEq, if_true,
      if_false, Faithful.word32.read_write, faithful_node.list.read_write,
      EdgeRecord.faithful.list.read_write, Option.bind_eq_bind, Option.bind_some, Option.pure_def]

theorem ClusteringRecord.faithful : Faithful toJson ofJson? where
  proper c := Json.proper_record
    (by simp [ClusterRecord.faithful.list.proper, EdgeRecord.faithful.list.proper])
  read_write c := by
    rw [ofJson?, toJson, Json.row?_record (by simp) (by simp)]
    simp only [Json.Row.defaulted?_cons, String.reduceEq, if_true, if_false,
      ClusterRecord.faithful.list.read_write, EdgeRecord.faithful.list.read_write,
      Option.bind_eq_bind, Option.bind_some, Option.pure_def]

/-! ### Edges -/

variable {W : Type} [Number W]

namespace EdgeRecord

/-- Both methods are given. -/
def Complete (e : EdgeRecord) : Prop := e.method.isSome ∧ e.caller.isSome

/-- The field that an incomplete edge lacks; of two the one of the called method. -/
def missingField (e : EdgeRecord) : String :=
  if e.method.isSome then "source_method" else "link_method"

/-- Why the edge stops the making of a clustering, if it does. -/
def fault? (e : EdgeRecord) : Option Fault := Fault.of? e.methods

theorem toEdge_ofEdge (e : Edge W) : (ofEdge e).toEdge = .ok e.unweighted := rfl

theorem of?_toEdge (e : EdgeRecord) : Fault.of? (e.toEdge : Except Fault (Edge W)) = e.fault? :=
  Fault.of?_bind_pure e.methods _

theorem ofEdge_of_toEdge (e : EdgeRecord) (edge : Edge W) (h : e.toEdge = .ok edge) :
    ofEdge edge = e := by
  obtain ⟨⟨method, caller⟩, hmethods, h⟩ := Fault.bind_eq_ok_iff.1 h
  cases h
  obtain ⟨source, target, method?, caller?⟩ := e
  cases method? <;> cases caller? <;> cases hmethods
  rfl

theorem fault?_of_complete {e : EdgeRecord} (h : e.Complete) : e.fault? = none := by
  obtain ⟨source, target, method, caller⟩ := e
  cases method <;> cases caller <;> simp_all [Complete, fault?, methods, Fault.of?]

theorem fault?_of_not_complete {e : EdgeRecord} (h : ¬ e.Complete) :
    e.fault? = some (.missingMethod e.source e.target e.missingField) := by
  obtain ⟨source, target, method, caller⟩ := e
  cases method <;> cases caller <;> simp_all [Complete, fault?, methods, missingField, Fault.of?]

theorem fault?_eq_none_iff {e : EdgeRecord} : e.fault? = none ↔ e.Complete := by
  refine ⟨fun h => ?_, fault?_of_complete⟩
  by_contra hincomplete
  rw [fault?_of_not_complete hincomplete] at h
  cases h

theorem mapM_toEdge_ofEdge (edges : List (Edge W)) :
    (edges.map ofEdge).mapM toEdge = .ok (edges.map Edge.unweighted) := by
  have hpure : toEdge ∘ ofEdge = fun e : Edge W => (pure e.unweighted : Except Fault (Edge W)) :=
    funext toEdge_ofEdge
  rw [List.mapM_map, hpure, List.mapM_pure]
  rfl

theorem of?_mapM_toEdge (edges : List EdgeRecord) :
    Fault.of? (edges.mapM toEdge : Except Fault (List (Edge W))) = edges.findSome? fault? := by
  simp only [Fault.of?_mapM, of?_toEdge]

end EdgeRecord

/-! ### Clusters -/

/-- The same cluster with all weights one. -/
def Cluster.unweighted (k : Cluster W) : Cluster W :=
  { k with intraEdges := k.intraEdges.map Edge.unweighted }

namespace ClusterRecord

theorem toCluster_ofCluster (k : Cluster W) : (ofCluster k).toCluster = .ok k.unweighted := by
  simp only [toCluster, ofCluster, EdgeRecord.mapM_toEdge_ofEdge]
  rfl

theorem ofCluster_of_toCluster (k : ClusterRecord) (cluster : Cluster W)
    (h : k.toCluster = .ok cluster) : ofCluster cluster = k := by
  obtain ⟨edges, hedges, h⟩ := Fault.bind_eq_ok_iff.1 h
  cases h
  rw [ofCluster, Fault.map_eq_of_mapM_eq_ok EdgeRecord.ofEdge_of_toEdge hedges]

theorem of?_toCluster (k : ClusterRecord) :
    Fault.of? (k.toCluster : Except Fault (Cluster W)) =
      k.intraEdges.findSome? EdgeRecord.fault? := by
  rw [toCluster, Fault.of?_bind_pure, EdgeRecord.of?_mapM_toEdge]

end ClusterRecord

/-! ### Clusterings -/

/-- The same clustering with all weights one. -/
def Clustering.unweighted (c : Clustering W) : Clustering W :=
  ⟨c.clusters.map Cluster.unweighted, c.interEdges.map Edge.unweighted⟩

namespace ClusteringRecord

/-- All edges in the order in which they are made: those of the clusters, one cluster after
another, and then those between them. -/
def edges (c : ClusteringRecord) : List EdgeRecord :=
  c.clusters.flatMap ClusterRecord.intraEdges ++ c.interEdges

theorem toClustering_ofClustering (c : Clustering W) :
    (ofClustering c).toClustering = .ok c.unweighted := by
  have hclusters : (c.clusters.map ClusterRecord.ofCluster).mapM ClusterRecord.toCluster =
      .ok (c.clusters.map Cluster.unweighted) := by
    rw [List.mapM_map, Function.comp_def]
    simp only [ClusterRecord.toCluster_ofCluster]
    exact List.mapM_pure
  simp only [toClustering, ofClustering, hclusters, EdgeRecord.mapM_toEdge_ofEdge]
  rfl

theorem ofClustering_of_toClustering {c : ClusteringRecord} {clustering : Clustering W}
    (h : c.toClustering = .ok clustering) : ofClustering clustering = c := by
  obtain ⟨clusters, hclusters, h⟩ := Fault.bind_eq_ok_iff.1 h
  obtain ⟨interEdges, hinter, h⟩ := Fault.bind_eq_ok_iff.1 h
  cases h
  rw [ofClustering, Fault.map_eq_of_mapM_eq_ok ClusterRecord.ofCluster_of_toCluster hclusters,
    Fault.map_eq_of_mapM_eq_ok EdgeRecord.ofEdge_of_toEdge hinter]

/-- The making stops at the first edge that cannot be made. -/
theorem of?_toClustering (c : ClusteringRecord) :
    Fault.of? (c.toClustering : Except Fault (Clustering W)) =
      c.edges.findSome? EdgeRecord.fault? := by
  rw [toClustering, Fault.of?_bind fun _ => Fault.of?_bind_pure _ _, Fault.of?_mapM,
    EdgeRecord.of?_mapM_toEdge, edges, List.findSome?_append, findSome?_flatMap]
  simp only [ClusterRecord.of?_toCluster]

theorem exists_toClustering_iff (c : ClusteringRecord) :
    (∃ clustering : Clustering W, c.toClustering = .ok clustering) ↔
      ∀ e ∈ c.edges, e.Complete := by
  rw [← Fault.of?_eq_none_iff, of?_toClustering, List.findSome?_eq_none_iff]
  simp only [EdgeRecord.fault?_eq_none_iff]

/-- The first incomplete edge is the one that is reported. -/
theorem toClustering_of_incomplete {c : ClusteringRecord} (h : ¬ ∀ e ∈ c.edges, e.Complete) :
    ∃ before e after, c.edges = before ++ e :: after ∧ (∀ b ∈ before, b.Complete) ∧
      ¬ e.Complete ∧ (c.toClustering : Except Fault (Clustering W)) =
        .error (.missingMethod e.source e.target e.missingField) := by
  have hsome : c.edges.findSome? EdgeRecord.fault? ≠ none := by
    simpa only [ne_eq, List.findSome?_eq_none_iff, EdgeRecord.fault?_eq_none_iff] using h
  obtain ⟨fault, hfault⟩ := Option.ne_none_iff_exists'.1 hsome
  obtain ⟨before, e, after, hedges, he, hbefore⟩ := List.findSome?_eq_some_iff.1 hfault
  have hincomplete : ¬ e.Complete := by
    intro hcomplete
    rw [EdgeRecord.fault?_of_complete hcomplete] at he
    cases he
  rw [EdgeRecord.fault?_of_not_complete hincomplete, Option.some.injEq] at he
  refine ⟨before, e, after, hedges, fun b hb => EdgeRecord.fault?_eq_none_iff.1 (hbefore b hb),
    hincomplete, ?_⟩
  rw [← Fault.of?_eq_some_iff, of?_toClustering, hfault, he]

end ClusteringRecord

/-! ### Saving and reading back -/

namespace Clustering

/-- What is made of the text that is written of a clustering. There is nothing if the text cannot
be read as the data of a clustering. -/
def reload (write : Json → String) (c : Clustering W) : Option (Except Fault (Clustering W)) :=
  ((Json.parse? (write (ClusteringRecord.ofClustering c).toJson)).bind
    ClusteringRecord.ofJson?).map ClusteringRecord.toClustering

/-- Every clustering comes back with all weights one and otherwise as it was. A record makes a
clustering exactly when all its edges are complete, and that clustering has the same record again;
any other record stops at its first incomplete edge. -/
theorem reload_eq_unweighted {write : Json → String}
    (hwrite : write = Json.compact ∨ write = Json.pretty) :
    (∀ c : Clustering W, c.reload write = some (.ok c.unweighted)) ∧
    ∀ r : ClusteringRecord,
      ((∃ c : Clustering W, r.toClustering = .ok c) ↔ ∀ e ∈ r.edges, e.Complete) ∧
      (∀ c : Clustering W, r.toClustering = .ok c → ClusteringRecord.ofClustering c = r) ∧
      ((¬ ∀ e ∈ r.edges, e.Complete) →
        ∃ before e after, r.edges = before ++ e :: after ∧ (∀ b ∈ before, b.Complete) ∧
          ¬ e.Complete ∧ (r.toClustering : Except Fault (Clustering W)) =
            .error (.missingMethod e.source e.target e.missingField)) := by
  refine ⟨fun c => ?_, fun r => ⟨r.exists_toClustering_iff, fun c h => ?_, fun h => ?_⟩⟩
  · rw [reload, ClusteringRecord.faithful.parse?_write hwrite, Option.map_some,
      ClusteringRecord.toClustering_ofClustering]
  · exact ClusteringRecord.ofClustering_of_toClustering h
  · exact ClusteringRecord.toClustering_of_incomplete h

/-- Two clusters with one id that share a node and an edge, and a record whose first edge lacks its
calling method. -/
theorem reload_eq_unweighted_shared :
    let method : Method := ⟨"f", [⟨"int", "n"⟩], "void", "B", "f(int n)"⟩
    let e : Edge Rat := ⟨"A", "B", method, .blank, 5⟩
    let c : Clustering Rat := ⟨[⟨7, ["A", "B"], [e]⟩, ⟨7, ["B", "A"], [e, e]⟩], [e]⟩
    let lacking : EdgeRecord := ⟨"A", "B", some method, none⟩
    let r : ClusteringRecord := ⟨[⟨7, ["A"], [lacking]⟩], [⟨"B", "A", none, none⟩]⟩
    c.reload Json.pretty = some (.ok c.unweighted) ∧ (¬ ∀ e ∈ r.edges, e.Complete) ∧
      (r.toClustering : Except Fault (Clustering Rat)) =
        .error (.missingMethod "A" "B" "source_method") := by
  intro method e c lacking r
  obtain ⟨hreload, hrecord⟩ := reload_eq_unweighted (W := Rat) (.inr (Eq.refl Json.pretty))
  have hlacking : ¬ lacking.Complete := by simp [lacking, EdgeRecord.Complete]
  have hr : ¬ ∀ e ∈ r.edges, e.Complete :=
    fun h => hlacking (h lacking (by simp [r, ClusteringRecord.edges]))
  obtain ⟨before, e', after, hedges, hbefore, -, hresult⟩ := (hrecord r).2.2 hr
  refine ⟨hreload c, hr, ?_⟩
  cases before with
  | nil =>
    cases hedges
    exact hresult
  | cons b before =>
    obtain ⟨rfl, -⟩ := List.cons.inj hedges
    exact absurd (hbefore lacking (by simp)) hlacking

end Clustering

end CallClusters
