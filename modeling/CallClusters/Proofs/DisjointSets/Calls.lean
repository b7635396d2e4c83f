import CallClusters.Proofs.DisjointSets.Classes

/-! Sequences of calls on fresh disjoint sets. The calls are run twice: on sets, where a measure
ends every walk, and on the bare arrays, where a find is a recursion that may never return. From
fresh sets both runs go the same way, so every recursion returns, and two elements have one root
exactly when the joined pairs connect them. -/

namespace CallClusters.DisjointSets

open Relation

variable {n : Nat}

/-! ### Bare arrays -/

/-- Pointers and sizes by themselves. Nothing keeps the pointers from running in a circle. -/
structure Arrays (n : Nat) where
  parent : Vector (Fin n) n
  size : Vector Nat n

def arrays (s : DisjointSets n) : Arrays n := ⟨s.parent, s.size⟩

namespace Arrays

/-- Every element points at itself. -/
def initial (n : Nat) : Arrays n := ⟨Vector.ofFn id, Vector.replicate n 1⟩

/-- A find on `x` returns `r` and leaves the pointers `q`. It first makes a find on the parent, and
writes the answer into `x` on its return; along pointers in a circle no find returns. -/
inductive Finds : Vector (Fin n) n → Fin n → Fin n → Vector (Fin n) n → Prop
  | root {p : Vector (Fin n) n} {x : Fin n} : p.get x = x → Finds p x x p
  | step {p q : Vector (Fin n) n} {x r : Fin n} :
      p.get x ≠ x → Finds p (p.get x) r q → Finds p x r (q.set x r x.isLt)

/-- Hangs one of two roots under the other and adds up their sizes: the one with the smaller set,
or the first if the sets are of one size. -/
def hang (m : Arrays n) (r t : Fin n) : Arrays n :=
  if r = t then m
  else if m.size.get t < m.size.get r then
    ⟨m.parent.set t r t.isLt, m.size.set r (m.size.get r + m.size.get t) r.isLt⟩
  else ⟨m.parent.set r t r.isLt, m.size.set t (m.size.get t + m.size.get r) t.isLt⟩

/-- A call returns with an answer and leaves the arrays `m'`. A union finds the root of its first
element, then that of its second. -/
def Performs (m : Arrays n) : Call → Answer → Arrays n → Prop
  | .find x, a, m' => ∃ (hx : x < n) (r : Fin n) (p : Vector (Fin n) n),
    Finds m.parent ⟨x, hx⟩ r p ∧ a = .root r ∧ m' = ⟨p, m.size⟩
  | .union x y, a, m' => ∃ (hx : x < n) (hy : y < n) (r t : Fin n) (p q : Vector (Fin n) n),
    Finds m.parent ⟨x, hx⟩ r p ∧ Finds p ⟨y, hy⟩ t q ∧ a = .joined ∧ m' = hang ⟨q, m.size⟩ r t

/-- All calls return, one after another. -/
inductive Runs : Arrays n → List Call → List Answer → Arrays n → Prop
  | nil {m : Arrays n} : Runs m [] [] m
  | cons {m m' m'' : Arrays n} {c : Call} {cs : List Call} {a : Answer} {as : List Answer} :
      Performs m c a m' → Runs m' cs as m'' → Runs m (c :: cs) (a :: as) m''

theorem Finds.unique {p q q' : Vector (Fin n) n} {x r r' : Fin n} (h : Finds p x r q)
    (h' : Finds p x r' q') : r = r' ∧ q = q' := by
  induction h generalizing r' q' with
  | root hx =>
    cases h' with
    | root => exact ⟨rfl, rfl⟩
    | step hx' => exact absurd hx hx'
  | step hx _ ih =>
    cases h' with
    | root hx' => exact absurd hx' hx
    | step _ h' =>
      obtain ⟨rfl, rfl⟩ := ih h'
      exact ⟨rfl, rfl⟩

end Arrays

open Arrays

/-! ### The recursion of a find -/

theorem parent_find_of_root (s : DisjointSets n) {x : Fin n} (h : s.parent.get x = x) :
    (s.find x).2.parent = s.parent := by
  have hpath : s.path x = [] := by rw [path, if_pos h]
  simp only [find, hpath]
  rfl

/-- Compressing from `x` up is compressing from its parent up and then pointing `x` at the root. -/
theorem parent_find_step (s : DisjointSets n) (x : Fin n) (h : s.parent.get x ≠ x) :
    (s.find x).2.parent = (s.find (s.parent.get x)).2.parent.set x (s.root x) x.isLt := by
  apply Vector.ext
  intro i hi
  have hpath : s.path x = x :: s.path (s.parent.get x) := by rw [path, if_neg h]
  change (s.find x).2.parent.get ⟨i, hi⟩ = Vector.get _ ⟨i, hi⟩
  rw [get_set, parent_find, parent_find, hpath, root_parent]
  by_cases hix : (⟨i, hi⟩ : Fin n) = x <;> simp [hix]

theorem finds_find (s : DisjointSets n) (x : Fin n) :
    Finds s.parent x (s.root x) (s.find x).2.parent := by
  fun_induction s.root x with
  | case1 x h =>
    rw [s.parent_find_of_root h]
    exact .root h
  | case2 x h ih =>
    rw [s.parent_find_step x h, ← s.root_parent x]
    exact .step h ih

theorem finds_iff (s : DisjointSets n) (x r : Fin n) (q : Vector (Fin n) n) :
    Finds s.parent x r q ↔ r = s.root x ∧ q = (s.find x).2.parent := by
  constructor
  · exact fun h => h.unique (s.finds_find x)
  · rintro ⟨rfl, rfl⟩
    exact s.finds_find x

/-! ### Calls -/

/-- All elements of the call are below `n`. -/
def Call.Inside (n : Nat) : Call → Prop
  | .find x => x < n
  | .union x y => x < n ∧ y < n

instance (n : Nat) (c : Call) : Decidable (c.Inside n) := by
  cases c <;> unfold Call.Inside <;> infer_instance

theorem arrays_join (s : DisjointSets n) (r t : Fin n) (hr : s.parent.get r = r)
    (ht : s.parent.get t = t) : (s.join r t hr ht).arrays = s.arrays.hang r t := by
  unfold join hang
  split
  · rfl
  · split
    · rw [if_pos (by assumption)]
      rfl
    · rw [if_neg (by assumption)]
      rfl

/-- On the arrays of disjoint sets every call inside them returns, in one way. -/
theorem performs_iff (s : DisjointSets n) {c : Call} (hc : c.Inside n) (a : Answer)
    (m : Arrays n) :
    Performs s.arrays c a m ↔ a = (s.perform c).1 ∧ m = (s.perform c).2.arrays := by
  cases c with
  | find x =>
    have hx : x < n := hc
    simp only [Performs, perform, dif_pos hx, arrays, finds_iff]
    constructor
    · rintro ⟨_, r, p, ⟨rfl, rfl⟩, rfl, rfl⟩
      exact ⟨rfl, rfl⟩
    · rintro ⟨rfl, rfl⟩
      exact ⟨hx, _, _, ⟨rfl, rfl⟩, rfl, rfl⟩
  | union x y =>
    obtain ⟨hx, hy⟩ : x < n ∧ y < n := hc
    have harrays : (s.union ⟨x, hx⟩ ⟨y, hy⟩).arrays =
        hang ((s.find ⟨x, hx⟩).2.find ⟨y, hy⟩).2.arrays (s.root ⟨x, hx⟩)
          ((s.find ⟨x, hx⟩).2.root ⟨y, hy⟩) := arrays_join ..
    simp only [Performs, perform, dif_pos hx, dif_pos hy, harrays]
    constructor
    · rintro ⟨_, _, r, t, p, q, hp, hq, rfl, rfl⟩
      obtain ⟨rfl, rfl⟩ := (s.finds_iff _ _ _).1 hp
      obtain ⟨rfl, rfl⟩ := ((s.find _).2.finds_iff _ _ _).1 hq
      exact ⟨rfl, rfl⟩
    · rintro ⟨rfl, rfl⟩
      exact ⟨hx, hy, _, _, _, _, s.finds_find _, (s.find _).2.finds_find _, rfl, rfl⟩

/-- Makes calls one after another: the answers, and the sets after the last. -/
def performAll (s : DisjointSets n) : List Call → List Answer × DisjointSets n
  | [] => ([], s)
  | c :: cs =>
    let rest := (s.perform c).2.performAll cs
    ((s.perform c).1 :: rest.1, rest.2)

/-- Calls inside the sets make one run, which returns. -/
theorem runs_iff (s : DisjointSets n) {calls : List Call} (h : ∀ c ∈ calls, c.Inside n)
    (as : List Answer) (m : Arrays n) :
    Runs s.arrays calls as m ↔
      as = (s.performAll calls).1 ∧ m = (s.performAll calls).2.arrays := by
  induction calls generalizing s as with
  | nil =>
    constructor
    · rintro ⟨⟩
      exact ⟨rfl, rfl⟩
    · rintro ⟨rfl, rfl⟩
      exact .nil
  | cons c cs ih =>
    obtain ⟨hc, hcs⟩ := List.forall_mem_cons.1 h
    constructor
    · intro hrun
      cases hrun with
      | cons hstep hrest =>
        obtain ⟨rfl, rfl⟩ := (s.performs_iff hc _ _).1 hstep
        obtain ⟨rfl, rfl⟩ := (ih _ hcs _).1 hrest
        exact ⟨rfl, rfl⟩
    · rintro ⟨rfl, rfl⟩
      exact .cons ((s.performs_iff hc _ _).2 ⟨rfl, rfl⟩) ((ih _ hcs _).2 ⟨rfl, rfl⟩)

/-! ### Classes of a run -/

/-- Some call joins the two elements, in this order. -/
def JoinedBy (calls : List Call) (a b : Fin n) : Prop := .union a b ∈ calls

theorem Represents.perform {s : DisjointSets n} {R : Fin n → Fin n → Prop} (h : s.Represents R)
    (c : Call) : (s.perform c).2.Represents fun a b => R a b ∨ .union a b = c := by
  have hnone {t : DisjointSets n} (ht : t.Represents R)
      (hc : ∀ a b : Fin n, Call.union a b ≠ c) :
      t.Represents fun a b => R a b ∨ .union a b = c :=
    ht.congr fun a b => by simp [hc a b]
  cases c with
  | find x =>
    by_cases hx : x < n
    · simp only [DisjointSets.perform, dif_pos hx]
      exact hnone (h.find _) (by simp)
    · simp only [DisjointSets.perform, dif_neg hx]
      exact hnone h (by simp)
  | union x y =>
    by_cases hx : x < n
    · by_cases hy : y < n
      · simp only [DisjointSets.perform, dif_pos hx, dif_pos hy]
        exact (h.union ⟨x, hx⟩ ⟨y, hy⟩).congr fun a b => by simp [Fin.ext_iff]
      · simp only [DisjointSets.perform, dif_pos hx, dif_neg hy]
        exact hnone (h.find _) fun a b hab => hy (by cases hab; exact b.isLt)
    · simp only [DisjointSets.perform, dif_neg hx]
      exact hnone h fun a b hab => hx (by cases hab; exact a.isLt)

theorem Represents.performAll {s : DisjointSets n} {R : Fin n → Fin n → Prop}
    (h : s.Represents R) (calls : List Call) :
    (s.performAll calls).2.Represents fun a b => R a b ∨ JoinedBy calls a b := by
  induction calls generalizing s R with
  | nil => exact h.congr fun a b => by simp [JoinedBy]
  | cons c cs ih =>
    exact (ih (h.perform c)).congr fun a b => by simp [JoinedBy, or_assoc]

theorem represents_performAll (calls : List Call) :
    ((singletons n).performAll calls).2.Represents (JoinedBy calls) :=
  (represents_singletons.performAll calls).congr fun a b => by simp

/-- Calls on fresh sets all return. Then two elements are found to have one root exactly when the
joined pairs connect them; what is found is an element of the class that points at itself; and
nothing that is found changes by a find. -/
theorem performAll_partitions {n : Nat} (calls : List Call) (h : ∀ c ∈ calls, c.Inside n) :
    let answers := ((singletons n).performAll calls).1
    let s := ((singletons n).performAll calls).2
    (∀ as m, Runs (.initial n) calls as m ↔ as = answers ∧ m = s.arrays) ∧
    (∀ x y, (s.find x).1 = ((s.find x).2.find y).1 ↔ EqvGen (JoinedBy calls) x y) ∧
    (∀ x, Finds s.parent x (s.find x).1 (s.find x).2.parent ∧
      EqvGen (JoinedBy calls) x (s.find x).1 ∧ s.parent.get (s.find x).1 = (s.find x).1 ∧
      (s.find x).2.parent.get (s.find x).1 = (s.find x).1) ∧
    ∀ x y, ((s.find x).2.find y).1 = (s.find y).1 := by
  intro answers s
  have hs : s.Represents (JoinedBy calls) := represents_performAll calls
  simp only [find_fst, root_find]
  refine ⟨fun as m => runs_iff (singletons n) h as m, hs, fun x => ?_, by simp⟩
  refine ⟨s.finds_find x, (hs x (s.root x)).1 (s.root_root x).symm, s.parent_root x, ?_⟩
  exact s.parent_find_root x _ (s.parent_root x)

/-- Two unions join the last of three elements with the first, whatever is found in between. -/
theorem performAll_partitions_chain :
    let calls : List Call := [.union 0 1, .find 1, .union 1 2, .find 4]
    let s := ((singletons 5).performAll calls).2
    (∀ c ∈ calls, c.Inside 5) ∧ (s.find 2).1 = ((s.find 2).2.find 0).1 := by
  intro calls s
  have hinside : ∀ c ∈ calls, c.Inside 5 := by decide
  have h₀ : JoinedBy calls (0 : Fin 5) 1 := by simp [JoinedBy, calls]
  have h₁ : JoinedBy calls (1 : Fin 5) 2 := by simp [JoinedBy, calls]
  have hjoined : EqvGen (JoinedBy calls) (2 : Fin 5) 0 :=
    .symm _ _ (.trans _ _ _ (.rel _ _ h₀) (.rel _ _ h₁))
  exact ⟨hinside, ((performAll_partitions calls hinside).2.1 2 0).2 hjoined⟩

end CallClusters.DisjointSets
