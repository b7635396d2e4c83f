import CallClusters.Proofs.Analysis.Job
import CallClusters.Proofs.Record.Clustering

/-! Loading documents that were saved. -/

namespace CallClusters.FileTree

open Json (Faithful)

variable {t : FileTree} {path : String}

theorem load_eq_ok_iff {α : Type} {read : Json → Option α} {a : α} :
    t.load path read = .ok a ↔
      ∃ text, t.get? path = some (.file (.text text)) ∧ (Json.parse? text).bind read = some a := by
  rw [load]
  split
  · rename_i hnone
    simp [hnone]
  · rename_i text htext
    cases hread : (Json.parse? text).bind read <;> simp [htext, hread]
  · rename_i other hother hfile
    refine ⟨nofun, fun ⟨text, htext, _⟩ => ?_⟩
    rw [hfile] at htext
    exact (hother text (Option.some.inj htext)).elim

/-- What was written in either style is loaded again. -/
theorem load_of_write {α : Type} {toJson : α → Json} {ofJson? : Json → Option α}
    (hfaithful : Faithful toJson ofJson?) {write : Json → String}
    (hwrite : write = Json.compact ∨ write = Json.pretty) {a : α}
    (h : t.get? path = some (.file (.text (write (toJson a))))) :
    t.load path ofJson? = .ok a := by
  simp only [load, h, hfaithful.parse?_write hwrite]

variable {W : Type} [Number W]

/-- A graph in normal form comes back from its file, and nothing is reported. -/
theorem loadGraph_of_normal {g : Graph W} (hg : g.Normal)
    (h : t.get? path = some (.file (.text (GraphRecord.ofGraph g).toJson.pretty))) :
    t.loadGraph path = ([], g) := by
  have hload := load_of_write GraphRecord.faithful (.inr rfl) h
  simp only [loadGraph, hload, hg.toGraph_ofGraph]

/-- A clustering comes back from its file with all weights one. -/
theorem loadClustering_of_get? {c : Clustering W}
    (h : t.get? path = some (.file (.text (ClusteringRecord.ofClustering c).toJson.pretty))) :
    t.loadClustering path = .ok c.unweighted := by
  have hload := load_of_write ClusteringRecord.faithful (.inr rfl) h
  rw [loadClustering, hload]
  change ((ClusteringRecord.ofClustering c).toClustering.mapError _ : Except Failure _) = _
  rw [ClusteringRecord.toClustering_ofClustering]
  rfl

end CallClusters.FileTree
