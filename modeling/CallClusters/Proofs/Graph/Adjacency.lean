import CallClusters.Graph.Adjacency
import CallClusters.Proofs.Graph.Normal

/-! The adjacency of a graph beside its edges: every edge between nodes has an arc between the
positions of its ends, and the edges without an arc are the dangling ones. -/

namespace CallClusters.Graph

variable {W : Type} {g : Graph W} {e : Edge W}

theorem nodup_names (g : Graph W) : g.names.Nodup := nodup_eraseDups _

theorem mem_names {name : String} : name ∈ g.names ↔ name ∈ g.nodes := List.mem_eraseDups

/-- An arc leads from the position of the edge's source to that of its target. -/
theorem getElem?_of_arcOf {names : List String} {arc : Arc W} (h : arcOf names e = some arc) :
    names[arc.source]? = some e.source ∧ names[arc.target]? = some e.target := by
  unfold arcOf at h
  split at h
  · rename_i i j hi hj
    obtain ⟨hi, hsource, -⟩ := List.idxOf?_eq_some_iff.1 hi
    obtain ⟨hj, htarget, -⟩ := List.idxOf?_eq_some_iff.1 hj
    cases h
    exact ⟨List.getElem?_eq_some_iff.2 ⟨hi, hsource⟩, List.getElem?_eq_some_iff.2 ⟨hj, htarget⟩⟩
  · cases h

theorem weight_of_arcOf {names : List String} {arc : Arc W} (h : arcOf names e = some arc) :
    arc.weight = e.weight := by
  unfold arcOf at h
  split at h
  · cases h
    rfl
  · cases h

theorem exists_arcOf (h : g.dangles e = false) : ∃ arc, arcOf g.names e = some arc := by
  obtain ⟨hsource, htarget⟩ := dangles_eq_false_iff.1 h
  obtain ⟨i, hi⟩ := Option.isSome_iff_exists.1 (List.isSome_idxOf?.2 (mem_names.2 hsource))
  obtain ⟨j, hj⟩ := Option.isSome_iff_exists.1 (List.isSome_idxOf?.2 (mem_names.2 htarget))
  exact ⟨⟨i, j, e.weight⟩, by rw [arcOf, hi, hj]⟩

theorem dangles_of_arcOf {arc : Arc W} (h : arcOf g.names e = some arc) : g.dangles e = false := by
  obtain ⟨hsource, htarget⟩ := getElem?_of_arcOf h
  exact dangles_eq_false_iff.2
    ⟨mem_names.1 (List.mem_of_getElem? hsource), mem_names.1 (List.mem_of_getElem? htarget)⟩

theorem arcOf_eq_none_iff : arcOf g.names e = none ↔ g.dangles e = true := by
  rw [← Option.not_isSome_iff_eq_none, Option.isSome_iff_exists, ← Bool.not_eq_false]
  exact not_congr ⟨fun ⟨_, h⟩ => dangles_of_arcOf h, exists_arcOf⟩

end CallClusters.Graph
