/-! Disjoint sets of the numbers below `n`, as a forest of parent pointers with union by size and
path compression. Along a pointer the recorded size grows, so every walk to a root ends. -/

namespace CallClusters

structure DisjointSets (n : Nat) where
  parent : Vector (Fin n) n
  /-- The size of a root's set; of any other element, the size it had as a root. -/
  size : Vector Nat n
  positive : ∀ x, 0 < size.get x
  grows : ∀ x, parent.get x ≠ x → size.get x < size.get (parent.get x)

namespace DisjointSets

variable {n : Nat}

theorem get_eq_getElem {α : Type} (v : Vector α n) (i : Fin n) : v.get i = v[(i : Nat)] := rfl

theorem get_set {α : Type} (v : Vector α n) (i j : Fin n) (a : α) :
    (v.set i a).get j = if j = i then a else v.get j := by
  simp only [get_eq_getElem, Vector.getElem_set, Fin.ext_iff, eq_comm]

/-- Every element alone. -/
def singletons (n : Nat) : DisjointSets n where
  parent := Vector.ofFn id
  size := Vector.replicate n 1
  positive x := by simp [get_eq_getElem]
  grows x h := by simp [get_eq_getElem] at h

/-- No recorded size is larger. -/
def largest (s : DisjointSets n) : Nat := s.size.toList.foldl max 0

theorem le_foldl_max (xs : List Nat) (a : Nat) : a ≤ xs.foldl max a := by
  induction xs generalizing a with
  | nil => exact Nat.le_refl a
  | cons x xs ih => exact Nat.le_trans (Nat.le_max_left a x) (ih (max a x))

theorem le_foldl_max_of_mem {xs : List Nat} {x : Nat} (h : x ∈ xs) (a : Nat) :
    x ≤ xs.foldl max a := by
  induction xs generalizing a with
  | nil => cases h
  | cons y ys ih =>
    cases h with
    | head => exact Nat.le_trans (Nat.le_max_right a x) (le_foldl_max ys (max a x))
    | tail _ h => exact ih h (max a y)

theorem size_le_largest (s : DisjointSets n) (x : Fin n) : s.size.get x ≤ s.largest :=
  le_foldl_max_of_mem (by simp [get_eq_getElem]) 0

/-- The element at which the parents from `x` up end. -/
def root (s : DisjointSets n) (x : Fin n) : Fin n :=
  if s.parent.get x = x then x else s.root (s.parent.get x)
termination_by s.largest - s.size.get x
decreasing_by
  have := s.grows x ‹_›
  have := s.size_le_largest (s.parent.get x)
  omega

/-- `x` and the parents above it, up to the root but without it. -/
def path (s : DisjointSets n) (x : Fin n) : List (Fin n) :=
  if s.parent.get x = x then [] else x :: s.path (s.parent.get x)
termination_by s.largest - s.size.get x
decreasing_by
  have := s.grows x ‹_›
  have := s.size_le_largest (s.parent.get x)
  omega

theorem root_of_parent_eq {s : DisjointSets n} {x : Fin n} (h : s.parent.get x = x) :
    s.root x = x := by
  rw [root, if_pos h]

theorem root_parent (s : DisjointSets n) (x : Fin n) : s.root (s.parent.get x) = s.root x := by
  by_cases h : s.parent.get x = x
  · rw [h]
  · rw [root.eq_1 s x, if_neg h]

theorem parent_root (s : DisjointSets n) (x : Fin n) : s.parent.get (s.root x) = s.root x := by
  fun_induction s.root x with
  | case1 x h => exact h
  | case2 x h ih => exact ih

theorem size_le_root (s : DisjointSets n) (x : Fin n) :
    s.size.get x ≤ s.size.get (s.root x) := by
  fun_induction s.root x with
  | case1 x h => exact Nat.le_refl _
  | case2 x h ih => exact Nat.le_trans (Nat.le_of_lt (s.grows x h)) ih

/-- Everything on a path is smaller than the root it leads to. -/
theorem size_lt_root_of_mem_path (s : DisjointSets n) (x : Fin n) :
    ∀ y ∈ s.path x, s.size.get y < s.size.get (s.root x) := by
  fun_induction s.path x with
  | case1 x h => simp
  | case2 x h ih =>
    rw [root_parent] at ih
    intro y hy
    cases hy with
    | head =>
      have := s.size_le_root (s.parent.get x)
      rw [root_parent] at this
      exact Nat.lt_of_lt_of_le (s.grows x h) this
    | tail _ hy => exact ih y hy

/-! ### Finding -/

/-- Points each of `xs` at `r`. -/
def redirect (parent : Vector (Fin n) n) (xs : List (Fin n)) (r : Fin n) : Vector (Fin n) n :=
  xs.foldl (fun (p : Vector (Fin n) n) (x : Fin n) => p.set x r) parent

theorem get_redirect_of_not_mem (parent : Vector (Fin n) n) {xs : List (Fin n)} (r : Fin n)
    {y : Fin n} (h : y ∉ xs) : (redirect parent xs r).get y = parent.get y := by
  induction xs generalizing parent with
  | nil => rfl
  | cons x xs ih =>
    rw [List.mem_cons, not_or] at h
    exact (ih (parent.set x r) h.2).trans (by rw [get_set, if_neg h.1])

theorem get_redirect_of_mem (parent : Vector (Fin n) n) {xs : List (Fin n)} (r : Fin n)
    {y : Fin n} (h : y ∈ xs) : (redirect parent xs r).get y = r := by
  induction xs generalizing parent with
  | nil => cases h
  | cons x xs ih =>
    by_cases hy : y ∈ xs
    · exact ih (parent.set x r) hy
    · have hx : y = x := (List.mem_cons.1 h).resolve_right hy
      exact (get_redirect_of_not_mem (parent.set x r) r hy).trans (by rw [get_set, if_pos hx])

/-- The root of `x`, and the sets with the whole path to it pointed straight at it. -/
def find (s : DisjointSets n) (x : Fin n) : Fin n × DisjointSets n :=
  (s.root x,
    { parent := redirect s.parent (s.path x) (s.root x)
      size := s.size
      positive := s.positive
      grows := by
        intro y hy
        by_cases hm : y ∈ s.path x
        · rw [get_redirect_of_mem _ _ hm]
          exact s.size_lt_root_of_mem_path x y hm
        · rw [get_redirect_of_not_mem _ _ hm] at hy ⊢
          exact s.grows y hy })

theorem find_fst (s : DisjointSets n) (x : Fin n) : (s.find x).1 = s.root x := rfl

/-! ### Joining -/

/-- Hangs `r` under the root `t`, which takes over its size. -/
def link (s : DisjointSets n) (r t : Fin n) (hle : s.size.get r ≤ s.size.get t) (hne : r ≠ t)
    (ht : s.parent.get t = t) : DisjointSets n where
  parent := s.parent.set r t
  size := s.size.set t (s.size.get t + s.size.get r)
  positive x := by
    rw [get_set]
    have := s.positive x
    have := s.positive t
    split <;> omega
  grows x hx := by
    have hp := s.positive t
    rw [get_set] at hx
    simp only [get_set]
    by_cases hr : x = r
    · simp only [if_true, hr, if_neg hne]
      omega
    · rw [if_neg hr] at hx ⊢
      have hg := s.grows x hx
      have hxt : x ≠ t := fun h => hx (by rw [h, ht])
      rw [if_neg hxt]
      by_cases hpt : s.parent.get x = t
      · rw [if_pos hpt]
        rw [hpt] at hg
        omega
      · rw [if_neg hpt]
        exact hg

/-- Joins the sets of two roots: the smaller set goes under the larger one, and of two sets of
one size the first goes under the second. -/
def join (s : DisjointSets n) (r t : Fin n) (hr : s.parent.get r = r) (ht : s.parent.get t = t) :
    DisjointSets n :=
  if h : r = t then s
  else if hs : s.size.get t < s.size.get r then
    s.link t r (Nat.le_of_lt hs) (fun e => h e.symm) hr
  else s.link r t (Nat.le_of_not_lt hs) h ht

/-- A root stays a root when a path to some root is compressed. -/
theorem parent_find_root (s : DisjointSets n) (x y : Fin n) (h : s.parent.get y = y) :
    (s.find x).2.parent.get y = y := by
  have hy : y ∉ s.path x ∨ s.root x = y := by
    fun_induction s.path x with
    | case1 x hx => simp
    | case2 x hx ih =>
      rcases ih with ih | ih
      · refine .inl fun hm => ?_
        cases hm with
        | head => exact hx h
        | tail _ hm => exact ih hm
      · exact .inr (by rw [← root_parent]; exact ih)
  by_cases hm : y ∈ s.path x
  · rcases hy with hy | hy
    · contradiction
    · exact (get_redirect_of_mem _ _ hm).trans hy
  · exact (get_redirect_of_not_mem _ _ hm).trans h

/-- Joins the sets that hold `x` and `y`; both paths are compressed. -/
def union (s : DisjointSets n) (x y : Fin n) : DisjointSets n :=
  let s₁ := (s.find x).2
  let s₂ := (s₁.find y).2
  s₂.join (s.root x) (s₁.root y)
    (s₁.parent_find_root y _ (s.parent_find_root x _ (s.parent_root x)))
    (s₁.parent_find_root y _ (s₁.parent_root y))

/-! ### Calls by number -/

inductive Call where
  | find (x : Nat)
  | union (x y : Nat)

inductive Answer where
  | root (r : Nat)
  | joined
  /-- Some element of the call is not in the sets. -/
  | outside
  deriving DecidableEq

/-- Makes a call. A call with an element outside the sets stops there; of a union, the first
element's path may be compressed by then. -/
def perform (s : DisjointSets n) : Call → Answer × DisjointSets n
  | .find x => if hx : x < n then (.root (s.root ⟨x, hx⟩), (s.find ⟨x, hx⟩).2) else (.outside, s)
  | .union x y =>
    if hx : x < n then
      if hy : y < n then (.joined, s.union ⟨x, hx⟩ ⟨y, hy⟩) else (.outside, (s.find ⟨x, hx⟩).2)
    else (.outside, s)

/-- The root of every element. -/
def roots (s : DisjointSets n) : List (Fin n) := (List.finRange n).map s.root

end DisjointSets

end CallClusters
