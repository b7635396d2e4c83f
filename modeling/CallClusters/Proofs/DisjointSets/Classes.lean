import CallClusters.DisjointSets
import Mathlib.Logic.Relation

/-! Which elements share a root. A find moves no root, and a union moves the roots of two classes
to one of them, so the classes are those of the least equivalence that contains the joined pairs. -/

namespace CallClusters.DisjointSets

open Relation

variable {n : Nat}

/-- The roots are the only map that is constant along pointers and fixes the pointers' ends. -/
theorem root_eq_of_constant (s : DisjointSets n) (f : Fin n → Fin n)
    (hstep : ∀ x, s.parent.get x ≠ x → f (s.parent.get x) = f x)
    (hend : ∀ x, s.parent.get x = x → f x = x) (x : Fin n) : s.root x = f x := by
  fun_induction s.root x with
  | case1 x h => exact (hend x h).symm
  | case2 x h ih => exact ih.trans (hstep x h)

theorem root_root (s : DisjointSets n) (x : Fin n) : s.root (s.root x) = s.root x :=
  root_of_parent_eq (s.parent_root x)

/-! ### Finding -/

theorem root_of_mem_path (s : DisjointSets n) (x : Fin n) : ∀ y ∈ s.path x, s.root y = s.root x := by
  fun_induction s.path x with
  | case1 x h => simp
  | case2 x h ih =>
    intro y hy
    rcases List.mem_cons.1 hy with rfl | hy
    · rfl
    · rw [ih y hy, root_parent]

theorem parent_find (s : DisjointSets n) (x y : Fin n) :
    (s.find x).2.parent.get y =
      if (s.path x).contains y then s.root x else s.parent.get y := by
  by_cases h : y ∈ s.path x
  · rw [if_pos (List.contains_iff_mem.2 h)]
    exact get_redirect_of_mem _ _ h
  · rw [if_neg fun hy => h (List.contains_iff_mem.1 hy)]
    exact get_redirect_of_not_mem _ _ h

/-- Compressing a path leaves every root where it was. -/
@[simp] theorem root_find (s : DisjointSets n) (x y : Fin n) : (s.find x).2.root y = s.root y := by
  apply root_eq_of_constant
  · intro z hz
    rw [parent_find] at hz ⊢
    split
    · rw [root_root, s.root_of_mem_path x z (List.contains_iff_mem.1 ‹_›)]
    · exact s.root_parent z
  · intro z hz
    rw [parent_find] at hz
    split at hz
    · rw [s.root_of_mem_path x z (List.contains_iff_mem.1 ‹_›), hz]
    · exact root_of_parent_eq hz

@[simp] theorem size_find (s : DisjointSets n) (x : Fin n) : (s.find x).2.size = s.size := rfl

/-! ### Joining -/

section Link
variable (s : DisjointSets n) (r t : Fin n) (hle : s.size.get r ≤ s.size.get t) (hne : r ≠ t)
  (ht : s.parent.get t = t)

theorem parent_link (x : Fin n) :
    (s.link r t hle hne ht).parent.get x = if x = r then t else s.parent.get x := get_set ..

theorem size_link (x : Fin n) : (s.link r t hle hne ht).size.get x =
    if x = t then s.size.get t + s.size.get r else s.size.get x := get_set ..

end Link

theorem root_link (s : DisjointSets n) (r t : Fin n) (hle : s.size.get r ≤ s.size.get t)
    (hne : r ≠ t) (hr : s.parent.get r = r) (ht : s.parent.get t = t) (x : Fin n) :
    (s.link r t hle hne ht).root x = if s.root x = r then t else s.root x := by
  have hroot := root_of_parent_eq hr
  apply root_eq_of_constant _ fun x => if s.root x = r then t else s.root x
  · intro z hz
    rw [parent_link] at hz ⊢
    by_cases hzr : z = r
    · subst hzr
      simp only [if_true, hroot, root_of_parent_eq ht, ite_self]
    · simp only [if_neg hzr, root_parent]
  · intro z hz
    rw [parent_link] at hz
    by_cases hzr : z = r
    · rw [if_pos hzr] at hz
      exact absurd (hz.trans hzr).symm hne
    · rw [if_neg hzr] at hz
      simp only [root_of_parent_eq hz, if_neg hzr]

/-- The root that two roots' sets have after they are joined. -/
def winner (s : DisjointSets n) (r t : Fin n) : Fin n := if s.size.get t < s.size.get r then r else t

theorem root_join (s : DisjointSets n) (r t : Fin n) (hr : s.parent.get r = r)
    (ht : s.parent.get t = t) (x : Fin n) :
    (s.join r t hr ht).root x =
      if s.root x = r ∨ s.root x = t then s.winner r t else s.root x := by
  unfold join winner
  by_cases h : r = t
  · subst h
    by_cases hx : s.root x = r <;> simp [hx]
  · by_cases hs : s.size.get t < s.size.get r
    · simp only [dif_neg h, dif_pos hs, if_pos hs]
      rw [root_link _ _ _ _ _ ht hr]
      by_cases hxr : s.root x = r <;> by_cases hxt : s.root x = t <;> simp [hxr, hxt]
    · simp only [dif_neg h, dif_neg hs, if_neg hs]
      rw [root_link _ _ _ _ _ hr ht]
      by_cases hxr : s.root x = r <;> by_cases hxt : s.root x = t <;> simp [hxr, hxt]

/-- A union changes the roots of the two classes to one of them, and no other root. -/
theorem root_union (s : DisjointSets n) (x y z : Fin n) :
    (s.union x y).root z =
      if s.root z = s.root x ∨ s.root z = s.root y then s.winner (s.root x) (s.root y)
      else s.root z := by
  simp only [union, root_join, root_find]
  rfl

theorem root_union_eq_iff (s : DisjointSets n) (x y a b : Fin n) :
    (s.union x y).root a = (s.union x y).root b ↔
      s.root a = s.root b ∨ (s.root a = s.root x ∧ s.root b = s.root y) ∨
        (s.root a = s.root y ∧ s.root b = s.root x) := by
  have hwinner : s.winner (s.root x) (s.root y) = s.root x ∨
      s.winner (s.root x) (s.root y) = s.root y := by
    unfold winner
    split <;> simp
  simp only [root_union]
  by_cases ha : s.root a = s.root x ∨ s.root a = s.root y <;>
    by_cases hb : s.root b = s.root x ∨ s.root b = s.root y <;>
      grind

/-! ### Classes -/

/-- The sets are the classes of the least equivalence that contains `R`. -/
def Represents (s : DisjointSets n) (R : Fin n → Fin n → Prop) : Prop :=
  ∀ a b, s.root a = s.root b ↔ EqvGen R a b

theorem represents_singletons : (singletons n).Represents fun _ _ => False := by
  intro a b
  have hroot (x : Fin n) : (singletons n).root x = x :=
    root_of_parent_eq (by simp [singletons, get_eq_getElem])
  rw [hroot, hroot]
  constructor
  · rintro rfl
    exact .refl a
  · intro h
    induction h with
    | rel _ _ h => exact h.elim
    | refl => rfl
    | symm _ _ _ ih => exact ih.symm
    | trans _ _ _ _ _ ih₁ ih₂ => exact ih₁.trans ih₂

theorem Represents.find {s : DisjointSets n} {R : Fin n → Fin n → Prop} (h : s.Represents R)
    (x : Fin n) : (s.find x).2.Represents R := by
  intro a b
  rw [root_find, root_find]
  exact h a b

/-- Joining two elements adds their pair to the relation. -/
theorem Represents.union {s : DisjointSets n} {R : Fin n → Fin n → Prop} (h : s.Represents R)
    (x y : Fin n) : (s.union x y).Represents fun a b => R a b ∨ (a = x ∧ b = y) := by
  intro a b
  have hmono {c d : Fin n} (hcd : s.root c = s.root d) :
      EqvGen (fun a b => R a b ∨ (a = x ∧ b = y)) c d :=
    EqvGen.mono (fun _ _ => .inl) _ _ ((h c d).1 hcd)
  have hpair : EqvGen (fun a b => R a b ∨ (a = x ∧ b = y)) x y := .rel _ _ (.inr ⟨rfl, rfl⟩)
  constructor
  · intro hab
    rcases (s.root_union_eq_iff x y a b).1 hab with hab | ⟨ha, hb⟩ | ⟨ha, hb⟩
    · exact hmono hab
    · exact .trans _ _ _ (.trans _ _ _ (hmono ha) hpair) (.symm _ _ (hmono hb))
    · exact .trans _ _ _ (.trans _ _ _ (hmono ha) (.symm _ _ hpair)) (.symm _ _ (hmono hb))
  · intro hab
    induction hab with
    | rel c d hcd =>
      rw [root_union_eq_iff]
      rcases hcd with hcd | ⟨rfl, rfl⟩
      · exact .inl ((h c d).2 (.rel _ _ hcd))
      · exact .inr (.inl ⟨rfl, rfl⟩)
    | refl => rfl
    | symm _ _ _ ih => exact ih.symm
    | trans _ _ _ _ _ ih₁ ih₂ => exact ih₁.trans ih₂

theorem Represents.congr {s : DisjointSets n} {R S : Fin n → Fin n → Prop} (h : s.Represents R)
    (hRS : ∀ a b, R a b ↔ S a b) : s.Represents S := by
  have : R = S := by
    funext a b
    exact propext (hRS a b)
  exact this ▸ h

end CallClusters.DisjointSets
