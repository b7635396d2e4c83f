import CallClusters.Text
import Mathlib.Data.List.Basic

/-! The characters of a text, and where it is cut. A mark between two texts parts them, and a text
without the mark stays in one part, so lines that are put together are found again. -/

namespace CallClusters.Text

/-- For a literal the premise is `rfl`, at less cost than decoding its bytes. -/
theorem toList_of_eq {s : String} {cs : List Char} (h : s = String.ofList cs) : s.toList = cs := by
  rw [h, String.toList_ofList]

variable {mark : Char}

theorem cut_ne_nil (s : List Char) : cut mark s ≠ [] := by
  induction s with
  | nil => simp [cut]
  | cons c s ih =>
    change cutAt mark c (cut mark s) ≠ []
    unfold cutAt
    split
    · simp
    · split <;> simp

theorem cutAt_append {parts : List (List Char)} (h : parts ≠ []) (c : Char)
    (rest : List (List Char)) : cutAt mark c (parts ++ rest) = cutAt mark c parts ++ rest := by
  cases parts with
  | nil => exact absurd rfl h
  | cons part parts =>
    simp only [cutAt, List.cons_append]
    split <;> rfl

/-- A mark between two texts parts them. -/
theorem cut_append_mark (a b : List Char) :
    cut mark (a ++ mark :: b) = cut mark a ++ cut mark b := by
  induction a with
  | nil =>
    change cutAt mark mark (cut mark b) = [[]] ++ cut mark b
    cases hb : cut mark b with
    | nil => exact absurd hb (cut_ne_nil b)
    | cons part parts => simp [cutAt]
  | cons c a ih =>
    change cutAt mark c (cut mark (a ++ mark :: b)) = cutAt mark c (cut mark a) ++ cut mark b
    rw [ih, cutAt_append (cut_ne_nil a)]

theorem cut_of_not_mem {s : List Char} (h : mark ∉ s) : cut mark s = [s] := by
  induction s with
  | nil => rfl
  | cons c s ih =>
    obtain ⟨hc, hs⟩ := not_or.1 (List.mem_cons.not.1 h)
    change cutAt mark c (cut mark s) = [c :: s]
    rw [ih hs, cutAt, if_neg fun heq => hc heq.symm]

/-- Texts that are each followed by a mark are cut one by one, and nothing follows the last mark. -/
theorem cut_join (texts : List String) :
    cut mark (String.join (texts.map fun text => text ++ String.singleton mark)).toList =
      (texts.flatMap fun text => cut mark text.toList) ++ [[]] := by
  rw [String.toList_join]
  induction texts with
  | nil => rfl
  | cons text texts ih =>
    rw [List.map_cons, List.flatMap_cons, String.toList_append, String.toList_singleton,
      List.append_assoc, List.singleton_append, cut_append_mark, ih, List.flatMap_cons,
      List.append_assoc]

theorem parts_append_mark (a b : String) :
    parts mark (a ++ String.singleton mark ++ b) = parts mark a ++ parts mark b := by
  simp [parts, cut_append_mark]

end CallClusters.Text
