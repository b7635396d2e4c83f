import CallClusters.Proofs.DisjointSets.Calls
import Mathlib.Data.Fintype.Card
import Mathlib.Logic.Function.Iterate

/-! Disjoint sets beside arrays on which no path is ever compressed, and on which a call that cannot
be finished does nothing. Both give the same answers to all calls. The pointers of the two drift
apart, but the roots stay the same and so do the sizes, and no answer depends on anything else. -/

namespace CallClusters.DisjointSets

variable {n : Nat}

/-! ### The length of a path -/

theorem size_le_of_mem_path (s : DisjointSets n) (x : Fin n) :
    ∀ y ∈ s.path x, s.size.get x ≤ s.size.get y := by
  fun_induction s.path x with
  | case1 x h => simp
  | case2 x h ih =>
    intro y hy
    rcases List.mem_cons.1 hy with rfl | hy
    · exact Nat.le_refl _
    · exact Nat.le_trans (Nat.le_of_lt (s.grows x h)) (ih y hy)

/-- The sizes grow along a path, so no element comes twice. -/
theorem nodup_path (s : DisjointSets n) (x : Fin n) : (s.path x).Nodup := by
  fun_induction s.path x with
  | case1 x h => exact List.nodup_nil
  | case2 x h ih =>
    refine List.nodup_cons.2 ⟨fun hx => ?_, ih⟩
    have hle := s.size_le_of_mem_path _ x hx
    exact Nat.not_lt_of_le hle (s.grows x h)

theorem length_path_le (s : DisjointSets n) (x : Fin n) : (s.path x).length ≤ n := by
  simpa using (s.nodup_path x).length_le_card

theorem iterate_length_path (s : DisjointSets n) (x : Fin n) :
    s.parent.get^[(s.path x).length] x = s.root x := by
  fun_induction s.path x with
  | case1 x h => exact (root_of_parent_eq h).symm
  | case2 x h ih => rw [List.length_cons, Function.iterate_succ_apply, ih, root_parent]

/-- As many steps as there are elements lead to the root from everywhere. -/
theorem iterate_parent (s : DisjointSets n) (x : Fin n) : s.parent.get^[n] x = s.root x := by
  obtain ⟨more, hmore⟩ := Nat.exists_eq_add_of_le' (s.length_path_le x)
  calc s.parent.get^[n] x
      = s.parent.get^[more] (s.parent.get^[(s.path x).length] x) := by
        rw [← Function.iterate_add_apply, ← hmore]
    _ = s.parent.get^[more] (s.root x) := by rw [iterate_length_path]
    _ = s.root x := Function.iterate_fixed (s.parent_root x) more

/-! ### Arrays without compression -/

namespace Arrays

/-- The end of the pointers from `x` up, if they do not run in a circle. -/
def top (m : Arrays n) (x : Fin n) : Fin n := m.parent.get^[n] x

/-- Makes a call by looking up roots where they are. Nothing is done if some element of the call is
not in the arrays. -/
def answer (m : Arrays n) : Call → Answer × Arrays n
  | .find x => if hx : x < n then (.root (m.top ⟨x, hx⟩), m) else (.outside, m)
  | .union x y =>
    if h : x < n ∧ y < n then (.joined, m.hang (m.top ⟨x, h.1⟩) (m.top ⟨y, h.2⟩)) else (.outside, m)

def answerAll (m : Arrays n) : List Call → List Answer × Arrays n
  | [] => ([], m)
  | c :: cs =>
    let rest := (m.answer c).2.answerAll cs
    ((m.answer c).1 :: rest.1, rest.2)

/-- A call is made on arrays with compression, and breaks off at the first element that is not in
them. What was written by then stays. -/
inductive Attempts (m : Arrays n) : Call → Answer → Arrays n → Prop
  | performed {c : Call} {a : Answer} {m' : Arrays n} : Performs m c a m' → Attempts m c a m'
  | find {x : Nat} : n ≤ x → Attempts m (.find x) .outside m
  | first {x y : Nat} : n ≤ x → Attempts m (.union x y) .outside m
  | second {x y : Nat} {r : Fin n} {p : Vector (Fin n) n} (hx : x < n) :
      n ≤ y → Finds m.parent ⟨x, hx⟩ r p → Attempts m (.union x y) .outside ⟨p, m.size⟩

/-- Calls are made one after another, whether or not they break off. -/
inductive AttemptsAll : Arrays n → List Call → List Answer → Arrays n → Prop
  | nil {m : Arrays n} : AttemptsAll m [] [] m
  | cons {m m' m'' : Arrays n} {c : Call} {cs : List Call} {a : Answer} {as : List Answer} :
      Attempts m c a m' → AttemptsAll m' cs as m'' → AttemptsAll m (c :: cs) (a :: as) m''

theorem Performs.inside {m m' : Arrays n} {c : Call} {a : Answer} (h : Performs m c a m') :
    c.Inside n := by
  cases c with
  | find x =>
    obtain ⟨hx, -⟩ := h
    exact hx
  | union x y =>
    obtain ⟨hx, hy, -⟩ := h
    exact ⟨hx, hy⟩

theorem top_arrays (s : DisjointSets n) (x : Fin n) : s.arrays.top x = s.root x := s.iterate_parent x

/-- What a join does to the sizes depends on nothing but the sizes. -/
theorem size_hang_congr {m m' : Arrays n} (h : m.size = m'.size) (r t : Fin n) :
    (m.hang r t).size = (m'.hang r t).size := by
  unfold hang
  rw [h]
  split_ifs
  · exact h
  · rfl
  · rfl

end Arrays

open Arrays

/-! ### Calls that break off -/

theorem attempts_iff (s : DisjointSets n) (c : Call) (a : Answer) (m : Arrays n) :
    Attempts s.arrays c a m ↔ a = (s.perform c).1 ∧ m = (s.perform c).2.arrays := by
  constructor
  · intro h
    cases h with
    | performed h => exact (s.performs_iff h.inside a m).1 h
    | find hx => simp [perform, Nat.not_lt_of_le hx]
    | first hx => simp [perform, Nat.not_lt_of_le hx]
    | second hx hy h =>
      obtain ⟨-, rfl⟩ := (s.finds_iff _ _ _).1 h
      simp only [perform, dif_pos hx, dif_neg (Nat.not_lt_of_le hy), true_and]
      rfl
  · rintro ⟨rfl, rfl⟩
    by_cases hc : c.Inside n
    · exact .performed ((s.performs_iff hc _ _).2 ⟨rfl, rfl⟩)
    · cases c with
      | find x =>
        have hx : ¬ x < n := hc
        simp only [perform, dif_neg hx]
        exact .find (Nat.le_of_not_lt hx)
      | union x y =>
        by_cases hx : x < n
        · have hy : ¬ y < n := fun hy => hc ⟨hx, hy⟩
          simp only [perform, dif_pos hx, dif_neg hy]
          exact .second hx (Nat.le_of_not_lt hy) (s.finds_find _)
        · simp only [perform, dif_neg hx]
          exact .first (Nat.le_of_not_lt hx)

/-- All calls return or break off, and in one way. -/
theorem attemptsAll_iff (s : DisjointSets n) (calls : List Call) (as : List Answer)
    (m : Arrays n) :
    AttemptsAll s.arrays calls as m ↔
      as = (s.performAll calls).1 ∧ m = (s.performAll calls).2.arrays := by
  induction calls generalizing s as with
  | nil =>
    constructor
    · rintro ⟨⟩
      exact ⟨rfl, rfl⟩
    · rintro ⟨rfl, rfl⟩
      exact .nil
  | cons c cs ih =>
    constructor
    · intro h
      cases h with
      | cons hfirst hrest =>
        obtain ⟨rfl, rfl⟩ := (s.attempts_iff _ _ _).1 hfirst
        obtain ⟨rfl, rfl⟩ := (ih _ _).1 hrest
        exact ⟨rfl, rfl⟩
    · rintro ⟨rfl, rfl⟩
      exact .cons ((s.attempts_iff _ _ _).2 ⟨rfl, rfl⟩) ((ih _ _).2 ⟨rfl, rfl⟩)

/-! ### The same answers -/

/-- The arrays are those of some disjoint sets with the same roots and sizes. -/
def Mirrors (s : DisjointSets n) (m : Arrays n) : Prop :=
  ∃ u : DisjointSets n, u.arrays = m ∧ u.root = s.root ∧ u.size = s.size

theorem mirrors_arrays (s : DisjointSets n) : s.Mirrors s.arrays := ⟨s, rfl, rfl, rfl⟩

namespace Mirrors

variable {s : DisjointSets n} {m : Arrays n}

theorem top (h : s.Mirrors m) (x : Fin n) : m.top x = s.root x := by
  obtain ⟨u, rfl, hroot, -⟩ := h
  rw [top_arrays, hroot]

theorem find (h : s.Mirrors m) (x : Fin n) : (s.find x).2.Mirrors m := by
  obtain ⟨u, hu, hroot, hsize⟩ := h
  exact ⟨u, hu, hroot.trans (funext fun y => (s.root_find x y).symm), hsize⟩

/-- The roots decide what a join does to roots and sizes, together with the sizes. -/
theorem join {r t : Fin n} (h : s.Mirrors m) (hr : s.parent.get r = r) (ht : s.parent.get t = t) :
    (s.join r t hr ht).Mirrors (m.hang r t) := by
  obtain ⟨u, rfl, hroot, hsize⟩ := h
  have hroots {y : Fin n} (hy : s.parent.get y = y) : u.parent.get y = y := by
    rw [← root_of_parent_eq hy, ← hroot]
    exact u.parent_root y
  refine ⟨u.join r t (hroots hr) (hroots ht), arrays_join .., ?_, ?_⟩
  · funext x
    rw [root_join, root_join, hroot, winner, winner, hsize]
  · have hhang : (u.arrays.hang r t).size = (s.arrays.hang r t).size := size_hang_congr hsize r t
    rwa [← arrays_join u r t (hroots hr) (hroots ht), ← arrays_join s r t hr ht] at hhang

theorem union (h : s.Mirrors m) (x y : Fin n) :
    (s.union x y).Mirrors (m.hang (m.top x) (m.top y)) := by
  have hjoin := ((h.find x).find y).join
    ((s.find x).2.parent_find_root y _ (s.parent_find_root x _ (s.parent_root x)))
    ((s.find x).2.parent_find_root y _ ((s.find x).2.parent_root y))
  simp only [root_find] at hjoin
  simp only [h.top, DisjointSets.union, root_find]
  exact hjoin

/-- Compression changes nothing that a call depends on, be it of both elements or of the first one
alone. -/
theorem perform (h : s.Mirrors m) (c : Call) :
    (s.perform c).1 = (m.answer c).1 ∧ (s.perform c).2.Mirrors (m.answer c).2 := by
  cases c with
  | find x =>
    by_cases hx : x < n
    · simp only [DisjointSets.perform, answer, dif_pos hx, h.top, true_and]
      exact h.find _
    · simp only [DisjointSets.perform, answer, dif_neg hx, true_and]
      exact h
  | union x y =>
    by_cases hx : x < n
    · by_cases hy : y < n
      · simp only [DisjointSets.perform, answer, dif_pos hx, dif_pos hy,
          dif_pos (And.intro hx hy), true_and]
        exact h.union _ _
      · have hxy : ¬ (x < n ∧ y < n) := fun hxy => hy hxy.2
        simp only [DisjointSets.perform, answer, dif_pos hx, dif_neg hy, dif_neg hxy,
          true_and]
        exact h.find _
    · have hxy : ¬ (x < n ∧ y < n) := fun hxy => hx hxy.1
      simp only [DisjointSets.perform, answer, dif_neg hx, dif_neg hxy, true_and]
      exact h

theorem performAll (h : s.Mirrors m) (calls : List Call) :
    (s.performAll calls).1 = (m.answerAll calls).1 ∧
      (s.performAll calls).2.Mirrors (m.answerAll calls).2 := by
  induction calls generalizing s m with
  | nil => exact ⟨rfl, h⟩
  | cons c cs ih =>
    obtain ⟨hanswer, hnext⟩ := h.perform c
    obtain ⟨hanswers, hlast⟩ := ih hnext
    exact ⟨congrArg₂ List.cons hanswer hanswers, hlast⟩

end Mirrors

/-! ### Calls that change nothing -/

/-- The call joins two elements below `n`. -/
def Call.joins (n : Nat) : Call → Bool
  | .find _ => false
  | .union x y => decide (x < n ∧ y < n)

theorem answer_of_joins_eq_false (m : Arrays n) {c : Call} (h : c.joins n = false) :
    (m.answer c).2 = m := by
  cases c with
  | find x => by_cases hx : x < n <;> simp [answer, hx]
  | union x y =>
    have hxy : ¬ (x < n ∧ y < n) := by simpa [Call.joins] using h
    simp only [answer, dif_neg hxy]

/-- Without compression only the unions inside the arrays leave a trace. -/
theorem answerAll_filter_joins (m : Arrays n) (calls : List Call) :
    (m.answerAll (calls.filter (Call.joins n))).2 = (m.answerAll calls).2 := by
  induction calls generalizing m with
  | nil => rfl
  | cons c cs ih =>
    cases hc : c.joins n with
    | true =>
      rw [List.filter_cons_of_pos hc]
      exact ih _
    | false =>
      rw [List.filter_cons_of_neg (by simp [hc]), ih]
      simp only [answerAll, answer_of_joins_eq_false m hc]

/-- Calls on fresh sets, with elements inside or outside of them, are answered as on arrays without
compression, on which calls that break off do nothing and the end of all pointers is a root. Two
sequences of calls with the same unions inside leave sets that answer all later calls alike. -/
theorem performAll_eq_uncompressed {n : Nat} (calls : List Call) :
    let answers := ((singletons n).performAll calls).1
    let s := ((singletons n).performAll calls).2
    let m := ((Arrays.initial n).answerAll calls).2
    (∀ as m', AttemptsAll (.initial n) calls as m' ↔ as = answers ∧ m' = s.arrays) ∧
    answers = ((Arrays.initial n).answerAll calls).1 ∧
    (∀ x, (s.find x).1 = m.top x ∧ m.parent.get (m.top x) = m.top x) ∧
    ∀ others : List Call, others.filter (Call.joins n) = calls.filter (Call.joins n) →
      ∀ later, (((singletons n).performAll others).2.performAll later).1 =
        (s.performAll later).1 := by
  intro answers s m
  have hmirrors (cs : List Call) := (singletons n).mirrors_arrays.performAll cs
  have hlast : s.Mirrors m := (hmirrors calls).2
  refine ⟨(singletons n).attemptsAll_iff calls, (hmirrors calls).1, fun x => ?_, ?_⟩
  · refine ⟨(hlast.top x).symm, ?_⟩
    obtain ⟨u, hu, -, -⟩ := hlast
    rw [← hu, top_arrays]
    exact u.parent_root x
  · intro others hothers later
    have hsame : ((Arrays.initial n).answerAll others).2 = m := by
      rw [← answerAll_filter_joins, hothers, answerAll_filter_joins]
    rw [(hlast.performAll later).1, ← hsame]
    exact ((hmirrors others).2.performAll later).1

/-- A union that breaks off at its second element, and finds, leave no trace. -/
theorem performAll_eq_uncompressed_broken :
    let joins : List Call := [.union 0 1, .union 2 3, .union 1 3]
    let calls : List Call := [.union 0 1, .find 9, .union 2 3, .find 0, .union 1 3, .union 0 4]
    joins.filter (Call.joins 4) = calls.filter (Call.joins 4) ∧
      (((singletons 4).performAll joins).2.performAll [.find 0]).1 =
        (((singletons 4).performAll calls).2.performAll [.find 0]).1 := by
  intro joins calls
  have h : joins.filter (Call.joins 4) = calls.filter (Call.joins 4) := rfl
  exact ⟨h, (performAll_eq_uncompressed calls).2.2.2 joins h [.find 0]⟩

end CallClusters.DisjointSets
