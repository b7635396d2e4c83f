import CallClusters.Proofs.DisjointSets.Uncompressed
import Mathlib.Algebra.BigOperators.Group.Finset.Basic
import Mathlib.Data.Nat.Log
import Mathlib.Order.Bounds.Basic

/-! How deep the pointers of disjoint sets go. The size of a root counts the elements that have this
root. An element that is hung up keeps the size it had as a root, and the size of its parent is from
then on at least twice as large, since a find moves pointers only to greater sizes. So the sizes double
at every step to a root, and neither a path nor the recursion of a find is longer than the logarithm
of the number of elements. -/

namespace CallClusters.DisjointSets

open Finset

variable {n : Nat}

/-! ### Steps to the root -/

theorem parent_eq_self_iff (s : DisjointSets n) (x : Fin n) : s.parent.get x = x ↔ s.root x = x :=
  ⟨root_of_parent_eq, fun h => by rw [← h, parent_root]⟩

theorem length_path_le_of_iterate (s : DisjointSets n) (x : Fin n) (k : Nat)
    (h : s.parent.get^[k] x = s.root x) : (s.path x).length ≤ k := by
  fun_induction s.path x generalizing k with
  | case1 x hx => exact Nat.zero_le k
  | case2 x hx ih =>
    cases k with
    | zero => exact absurd ((s.parent_eq_self_iff x).2 h.symm) hx
    | succ k =>
      rw [Function.iterate_succ_apply, ← root_parent] at h
      exact Nat.succ_le_succ (ih k h)

/-- A path has as many elements as there are parent steps to the root. -/
theorem isLeast_length_path (s : DisjointSets n) (x : Fin n) :
    IsLeast {k | s.parent.get^[k] x = s.root x} (s.path x).length :=
  ⟨s.iterate_length_path x, s.length_path_le_of_iterate x⟩

/-! ### Finds of bounded depth -/

namespace Arrays

/-- A find on `x` that gives up where its recursion would go more than `limit` calls deep below the
first. -/
def find? (limit : Nat) (p : Vector (Fin n) n) (x : Fin n) : Option (Fin n × Vector (Fin n) n) :=
  if p.get x = x then some (x, p)
  else
    match limit with
    | 0 => none
    | limit + 1 => (find? limit p (p.get x)).map fun (r, q) => (r, q.set x r x.isLt)

/-- Makes a call by finds of bounded depth. It breaks off at the first element that is not in the
arrays. -/
def perform? (limit : Nat) (m : Arrays n) : Call → Option (Answer × Arrays n)
  | .find x =>
    if hx : x < n then
      (find? limit m.parent ⟨x, hx⟩).map fun (r, p) => (.root r, ⟨p, m.size⟩)
    else some (.outside, m)
  | .union x y =>
    if hx : x < n then
      (find? limit m.parent ⟨x, hx⟩).bind fun (r, p) =>
        if hy : y < n then
          (find? limit p ⟨y, hy⟩).map fun (t, q) => (.joined, hang ⟨q, m.size⟩ r t)
        else some (.outside, ⟨p, m.size⟩)
    else some (.outside, m)

/-- Makes calls one after another, and gives up with the first that does. -/
def performAll? (limit : Nat) (m : Arrays n) : List Call → Option (List Answer × Arrays n)
  | [] => some ([], m)
  | c :: cs =>
    (m.perform? limit c).bind fun (a, m') =>
      (m'.performAll? limit cs).map fun (as, m'') => (a :: as, m'')

end Arrays

/-- A find recurses once for every step to the root. -/
theorem find?_eq (s : DisjointSets n) (limit : Nat) (x : Fin n) :
    Arrays.find? limit s.parent x =
      if (s.path x).length ≤ limit then some (s.root x, (s.find x).2.parent) else none := by
  fun_induction s.path x generalizing limit with
  | case1 x h =>
    rw [Arrays.find?.eq_def, if_pos h, root_of_parent_eq h, s.parent_find_of_root h]
    rfl
  | case2 x h ih =>
    rw [Arrays.find?.eq_def, if_neg h]
    cases limit with
    | zero => rfl
    | succ limit =>
      simp only [ih, List.length_cons, Nat.add_le_add_iff_right]
      split
      · rw [s.parent_find_step x h, ← s.root_parent x]
        rfl
      · rfl

/-! ### Members -/

/-- The root `r` and the elements below it. -/
def members (s : DisjointSets n) (r : Fin n) : Finset (Fin n) := {x | s.root x = r}

theorem mem_members {s : DisjointSets n} {r x : Fin n} : x ∈ s.members r ↔ s.root x = r := by
  simp [members]

theorem members_find (s : DisjointSets n) (x r : Fin n) : (s.find x).2.members r = s.members r := by
  simp only [members, root_find]

theorem disjoint_members (s : DisjointSets n) {r t : Fin n} (h : r ≠ t) :
    Disjoint (s.members r) (s.members t) := by
  rw [Finset.disjoint_left]
  intro x hr ht
  rw [mem_members] at hr ht
  exact h (hr.symm.trans ht)

/-- Every element is below one root. -/
theorem sum_card_members (s : DisjointSets n) :
    ∑ r with s.parent.get r = r, #(s.members r) = n := by
  have hroots : ∀ x ∈ (univ : Finset (Fin n)), s.root x ∈ univ.filter fun r => s.parent.get r = r :=
    fun x _ => by simp [parent_root]
  exact (card_eq_sum_card_fiberwise hroots).symm.trans (by simp)

section Link
variable {s : DisjointSets n} {r t : Fin n} (hle : s.size.get r ≤ s.size.get t) (hne : r ≠ t)
  (hr : s.parent.get r = r) (ht : s.parent.get t = t)
include hr

theorem members_link : (s.link r t hle hne ht).members t = s.members t ∪ s.members r := by
  ext x
  rw [mem_members, root_link _ _ _ _ _ hr, mem_union, mem_members, mem_members]
  by_cases hx : s.root x = r <;> simp [hx]

theorem members_link_of_ne {u : Fin n} (hur : u ≠ r) (hut : u ≠ t) :
    (s.link r t hle hne ht).members u = s.members u := by
  ext x
  rw [mem_members, root_link _ _ _ _ _ hr, mem_members]
  by_cases hx : s.root x = r
  · simp [hx, hur.symm, hut.symm]
  · rw [if_neg hx]

end Link

/-! ### Sizes -/

/-- Sizes double along pointers, and those of the roots count their members. -/
structure Balanced (s : DisjointSets n) : Prop where
  doubles : ∀ x, s.parent.get x ≠ x → 2 * s.size.get x ≤ s.size.get (s.parent.get x)
  counts : ∀ r, s.parent.get r = r → s.size.get r = #(s.members r)

theorem balanced_singletons : (singletons n).Balanced := by
  have hparent (x : Fin n) : (singletons n).parent.get x = x := by simp [singletons, get_eq_getElem]
  constructor
  · intro x hx
    exact absurd (hparent x) hx
  · intro r _
    have hmembers : (singletons n).members r = {r} := by
      ext x
      rw [mem_members, root_of_parent_eq (hparent x), mem_singleton]
    rw [hmembers, card_singleton]
    simp [singletons, get_eq_getElem]

namespace Balanced

variable {s : DisjointSets n} (h : s.Balanced)
include h

/-- Everything on a path has at most half the size of the root it leads to. -/
theorem two_mul_size_le_of_mem_path (x : Fin n) :
    ∀ y ∈ s.path x, 2 * s.size.get y ≤ s.size.get (s.root x) := by
  fun_induction s.path x with
  | case1 x hx => simp
  | case2 x hx ih =>
    rw [root_parent] at ih
    intro y hy
    rcases List.mem_cons.1 hy with rfl | hy
    · have hroot := s.size_le_root (s.parent.get y)
      rw [root_parent] at hroot
      exact (h.doubles y hx).trans hroot
    · exact ih y hy

theorem pow_length_path_mul_le (x : Fin n) :
    2 ^ (s.path x).length * s.size.get x ≤ s.size.get (s.root x) := by
  fun_induction s.path x with
  | case1 x hx => rw [root_of_parent_eq hx, List.length_nil, pow_zero, one_mul]
  | case2 x hx ih =>
    rw [root_parent] at ih
    calc 2 ^ (s.path (s.parent.get x)).length.succ * s.size.get x
        = 2 ^ (s.path (s.parent.get x)).length * (2 * s.size.get x) := by rw [pow_succ, mul_assoc]
      _ ≤ 2 ^ (s.path (s.parent.get x)).length * s.size.get (s.parent.get x) :=
        Nat.mul_le_mul_left _ (h.doubles x hx)
      _ ≤ s.size.get (s.root x) := ih

theorem pow_length_path_le (x : Fin n) : 2 ^ (s.path x).length ≤ s.size.get (s.root x) :=
  (Nat.le_mul_of_pos_right _ (s.positive x)).trans (h.pow_length_path_mul_le x)

theorem length_path_le_log (x : Fin n) : (s.path x).length ≤ Nat.log 2 n := by
  apply Nat.le_log_of_pow_le Nat.one_lt_two
  calc 2 ^ (s.path x).length ≤ s.size.get (s.root x) := h.pow_length_path_le x
    _ = #(s.members (s.root x)) := h.counts _ (s.parent_root x)
    _ ≤ n := by simpa using card_le_univ (s.members (s.root x))

/-- Pointers that are compressed lead to a size that is greater still. -/
theorem find (x : Fin n) : (s.find x).2.Balanced where
  doubles y hy := by
    rw [parent_find] at hy ⊢
    split
    · exact h.two_mul_size_le_of_mem_path x y (List.contains_iff_mem.1 ‹_›)
    · rw [if_neg ‹_›] at hy
      exact h.doubles y hy
  counts r hr := by
    rw [parent_eq_self_iff, root_find, ← parent_eq_self_iff] at hr
    rw [members_find]
    exact h.counts r hr

theorem link {r t : Fin n} (hle : s.size.get r ≤ s.size.get t) (hne : r ≠ t)
    (hr : s.parent.get r = r) (ht : s.parent.get t = t) : (s.link r t hle hne ht).Balanced := by
  constructor
  · intro z hz
    rw [parent_link] at hz ⊢
    rw [size_link, size_link]
    by_cases hzr : z = r
    · -- What is hung up keeps its size, which the root takes over on top of one as large.
      subst hzr
      rw [if_pos rfl, if_neg hne, if_pos rfl]
      omega
    · rw [if_neg hzr] at hz ⊢
      have hzt : z ≠ t := fun hzt => hz (hzt ▸ ht)
      have hdoubles := h.doubles z hz
      rw [if_neg hzt]
      split
      · rename_i hpt
        rw [hpt] at hdoubles
        omega
      · exact hdoubles
  · intro u hu
    rw [parent_link] at hu
    have hur : u ≠ r := by
      rintro rfl
      rw [if_pos rfl] at hu
      exact hne hu.symm
    rw [if_neg hur] at hu
    rw [size_link]
    by_cases hut : u = t
    · subst hut
      rw [if_pos rfl, members_link hle hne hr ht, card_union_of_disjoint (s.disjoint_members hur),
        h.counts u hu, h.counts r hr]
    · rw [if_neg hut, members_link_of_ne hle hne hr ht hur hut]
      exact h.counts u hu

theorem join {r t : Fin n} (hr : s.parent.get r = r) (ht : s.parent.get t = t) :
    (s.join r t hr ht).Balanced := by
  unfold DisjointSets.join
  split
  · exact h
  · split
    · exact h.link _ _ ht hr
    · exact h.link _ _ hr ht

theorem union (x y : Fin n) : (s.union x y).Balanced := ((h.find x).find y).join _ _

theorem perform (c : Call) : (s.perform c).2.Balanced := by
  cases c with
  | find x =>
    by_cases hx : x < n
    · simp only [DisjointSets.perform, dif_pos hx]
      exact h.find _
    · simp only [DisjointSets.perform, dif_neg hx]
      exact h
  | union x y =>
    by_cases hx : x < n
    · by_cases hy : y < n
      · simp only [DisjointSets.perform, dif_pos hx, dif_pos hy]
        exact h.union _ _
      · simp only [DisjointSets.perform, dif_pos hx, dif_neg hy]
        exact h.find _
    · simp only [DisjointSets.perform, dif_neg hx]
      exact h

theorem performAll (calls : List Call) : (s.performAll calls).2.Balanced := by
  induction calls generalizing s with
  | nil => exact h
  | cons c cs ih => exact ih (h.perform c)

/-! ### Calls by finds of bounded depth -/

theorem find?_log (x : Fin n) :
    Arrays.find? (Nat.log 2 n) s.parent x = some (s.root x, (s.find x).2.parent) := by
  rw [find?_eq, if_pos (h.length_path_le_log x)]

theorem perform?_log (c : Call) :
    s.arrays.perform? (Nat.log 2 n) c = some ((s.perform c).1, (s.perform c).2.arrays) := by
  cases c with
  | find x =>
    by_cases hx : x < n
    · simp only [Arrays.perform?, DisjointSets.perform, dif_pos hx, arrays, h.find?_log]
      rfl
    · simp only [Arrays.perform?, DisjointSets.perform, dif_neg hx]
  | union x y =>
    by_cases hx : x < n
    · have hfirst := h.find?_log ⟨x, hx⟩
      by_cases hy : y < n
      · have hsecond := (h.find ⟨x, hx⟩).find?_log ⟨y, hy⟩
        simp only [Arrays.perform?, DisjointSets.perform, dif_pos hx, dif_pos hy, arrays, hfirst,
          Option.bind_some, hsecond, Option.map_some]
        exact congrArg (fun m => some (Answer.joined, m)) (arrays_join ..).symm
      · simp only [Arrays.perform?, DisjointSets.perform, dif_pos hx, dif_neg hy, arrays, hfirst]
        rfl
    · simp only [Arrays.perform?, DisjointSets.perform, dif_neg hx]

theorem performAll?_log (calls : List Call) :
    s.arrays.performAll? (Nat.log 2 n) calls =
      some ((s.performAll calls).1, (s.performAll calls).2.arrays) := by
  induction calls generalizing s with
  | nil => rfl
  | cons c cs ih =>
    simp only [Arrays.performAll?, h.perform?_log, Option.bind_some, ih (h.perform c),
      Option.map_some, DisjointSets.performAll]

end Balanced

/-- Calls on fresh sets, with elements inside or outside of them, are all made by finds that recurse
no deeper than the logarithm of the number of elements, and so is every find after them. The size of
a root is then the number of elements that it is the root of, and the sizes of all roots add up to the
number of elements. If an element is `d` parent steps from its root, the size of the root is `2 ^ d`
or more. -/
theorem performAll_depth_le_log {n : Nat} (calls : List Call) :
    let answers := ((singletons n).performAll calls).1
    let s := ((singletons n).performAll calls).2
    (Arrays.initial n).performAll? (Nat.log 2 n) calls = some (answers, s.arrays) ∧
    (∀ x, Arrays.find? (Nat.log 2 n) s.parent x = some (s.root x, (s.find x).2.parent)) ∧
    (∀ r, s.parent.get r = r → s.size.get r = #{x | s.root x = r}) ∧
    ∑ r with s.parent.get r = r, s.size.get r = n ∧
    ∀ x, s.parent.get (s.root x) = s.root x ∧
      ∃ d, IsLeast {k | s.parent.get^[k] x = s.root x} d ∧ 2 ^ d ≤ s.size.get (s.root x) := by
  intro answers s
  have h : s.Balanced := balanced_singletons.performAll calls
  refine ⟨balanced_singletons.performAll?_log calls, h.find?_log, h.counts, ?_, fun x => ?_⟩
  · calc ∑ r with s.parent.get r = r, s.size.get r
        = ∑ r with s.parent.get r = r, #(s.members r) :=
          sum_congr rfl fun r hr => h.counts r (mem_filter.1 hr).2
      _ = n := s.sum_card_members
  · exact ⟨s.parent_root x, _, s.isLeast_length_path x, h.pow_length_path_le x⟩

/-- Two pairs are joined, which puts the first element two steps below the root of all four. -/
theorem performAll_depth_le_log_pairs :
    let s := ((singletons 4).performAll [.union 0 1, .union 2 3, .union 1 3]).2
    s.parent.get 3 = 3 ∧ s.size.get 3 = 4 ∧ s.size.get 3 = #{x | s.root x = 3} := by
  intro s
  obtain ⟨hcalls, -, hcounts, -⟩ :=
    performAll_depth_le_log (n := 4) [.union 0 1, .union 2 3, .union 1 3]
  have hlog : Nat.log 2 4 = 2 := by decide
  rw [hlog] at hcalls
  have harrays : s.arrays = ⟨#v[1, 3, 3, 3], #v[1, 2, 1, 4]⟩ :=
    congrArg Prod.snd (Option.some.inj hcalls.symm)
  have hparent : s.parent = #v[1, 3, 3, 3] := congrArg Arrays.parent harrays
  have hsize : s.size = #v[1, 2, 1, 4] := congrArg Arrays.size harrays
  have hroot : s.parent.get 3 = 3 := by rw [hparent]; rfl
  have hfour : s.size.get 3 = 4 := by rw [hsize]; rfl
  exact ⟨hroot, hfour, hcounts 3 hroot⟩

/-- The bound is met: one call less is not enough to find the first element. -/
example : ((Arrays.initial 4).performAll? 1 [.union 0 1, .union 2 3, .union 1 3, .find 0]).isNone :=
  by decide

end CallClusters.DisjointSets
