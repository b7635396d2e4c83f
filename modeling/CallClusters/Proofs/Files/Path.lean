import CallClusters.Files.Path
import CallClusters.Proofs.Text

/-! The steps of a path that is put together from parts: those of each part, one after the other. -/

namespace CallClusters

namespace Path

theorem steps_empty : steps "" = [] := by decide

/-- A slash between two paths leads from the end of the first along the second. -/
theorem steps_append_slash (a b : String) : steps (a ++ "/" ++ b) = steps a ++ steps b := by
  have hslash : "/" = String.singleton '/' := rfl
  rw [steps, hslash, Text.parts_append_mark, List.filterMap_append]
  rfl

/-- A slash at the end of a path does not lead anywhere. -/
theorem steps_append_slash_end (a : String) : steps (a ++ "/") = steps a := by
  have h := steps_append_slash a ""
  rwa [String.append_empty, steps_empty, List.append_nil] at h

theorem steps_join (directory name : String) :
    steps (join directory name) = steps directory ++ steps name := by
  unfold join
  split
  · rename_i hends
    rw [Bool.or_eq_true, beq_iff_eq, beq_iff_eq] at hends
    rcases hends with rfl | hslash
    · rw [String.empty_append, steps_empty, List.nil_append]
    · obtain ⟨above, habove⟩ := List.getLast?_eq_some_iff.1 hslash
      have hdirectory : directory = String.ofList above ++ "/" := by
        rw [← String.toList_inj, habove]
        simp
      rw [hdirectory, steps_append_slash, steps_append_slash_end]
  · exact steps_append_slash directory name

end Path

end CallClusters
