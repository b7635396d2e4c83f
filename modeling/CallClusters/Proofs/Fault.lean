import CallClusters.Fault
import Mathlib.Data.List.Forall2

/-! The fault with which a computation stops, read off its parts: it is that of the first part that
has one. -/

namespace CallClusters

variable {α β γ : Type}

namespace Fault

/-- The fault with which a computation stopped, if it did. -/
def of? : Except Fault α → Option Fault
  | .ok _ => none
  | .error fault => some fault

theorem of?_eq_none_iff {x : Except Fault α} : of? x = none ↔ ∃ a, x = .ok a := by
  cases x <;> simp [of?]

theorem of?_eq_some_iff {x : Except Fault α} {fault : Fault} :
    of? x = some fault ↔ x = .error fault := by
  cases x <;> simp [of?]

/-- Where the second part stops in the same way whatever it is given, the first part comes first. -/
theorem of?_bind {x : Except Fault α} {f : α → Except Fault β} {second : Option Fault}
    (h : ∀ a, of? (f a) = second) : of? (x >>= f) = (of? x).or second := by
  cases x with
  | ok a => exact h a
  | error fault => rfl

theorem of?_bind_pure (x : Except Fault α) (f : α → β) : of? (x >>= fun a => pure (f a)) = of? x := by
  cases x <;> rfl

theorem of?_mapM (f : α → Except Fault β) (xs : List α) :
    of? (xs.mapM f) = xs.findSome? fun x => of? (f x) := by
  induction xs with
  | nil => rfl
  | cons x xs ih =>
    rw [List.mapM_cons, of?_bind fun y => of?_bind_pure _ (y :: ·), ih, List.findSome?_cons]
    cases of? (f x) <;> rfl

theorem bind_eq_ok_iff {x : Except Fault α} {f : α → Except Fault β} {b : β} :
    x >>= f = .ok b ↔ ∃ a, x = .ok a ∧ f a = .ok b := by
  cases x <;> simp [bind, Except.bind]

/-- A list is gone through with a result just where every element has one. -/
theorem mapM_eq_ok_iff {f : α → Except Fault β} {xs : List α} {ys : List β} :
    xs.mapM f = .ok ys ↔ List.Forall₂ (fun x y => f x = .ok y) xs ys := by
  induction xs generalizing ys with
  | nil =>
    rw [List.forall₂_nil_left_iff]
    constructor
    · intro h
      cases h
      rfl
    · rintro rfl
      rfl
  | cons x xs ih =>
    simp only [List.mapM_cons, bind_eq_ok_iff, ih, List.forall₂_cons_left_iff]
    constructor
    · rintro ⟨y, hy, rest, hrest, h⟩
      cases h
      exact ⟨y, rest, hy, hrest, rfl⟩
    · rintro ⟨y, rest, hy, hrest, rfl⟩
      exact ⟨y, hy, rest, hrest, rfl⟩

/-- Where every element can be had back from its result, so can the whole list. -/
theorem map_eq_of_mapM_eq_ok {f : α → Except Fault β} {back : β → α}
    (h : ∀ x y, f x = .ok y → back y = x) {xs : List α} {ys : List β}
    (hxs : xs.mapM f = .ok ys) : ys.map back = xs := by
  have hresults := mapM_eq_ok_iff.1 hxs
  clear hxs
  induction hresults with
  | nil => rfl
  | cons hy _ ih => rw [List.map_cons, h _ _ hy, ih]

/-! ### What a fault is about -/

/-- No clusters can be made. -/
def OfPartition (fault : Fault) : Prop :=
  fault = .noLevels ∨ ∃ id name, fault = .unknownMember id name

/-- A statistic over the clusters has no value. -/
def OfStatistic (fault : Fault) : Prop :=
  (∃ metric, fault = .noClusters metric) ∨
    ∃ threshold metric, fault = .noQualifyingClusters threshold metric

theorem OfStatistic.not_ofPartition {fault : Fault} (h : fault.OfStatistic) :
    ¬ fault.OfPartition := by
  obtain ⟨metric, rfl⟩ | ⟨threshold, metric, rfl⟩ := h <;> simp [OfPartition]

end Fault

theorem findSome?_flatMap (f : β → Option γ) (g : α → List β) (xs : List α) :
    (xs.flatMap g).findSome? f = xs.findSome? fun x => (g x).findSome? f := by
  induction xs with
  | nil => rfl
  | cons x xs ih =>
    rw [List.flatMap_cons, List.findSome?_append, ih, List.findSome?_cons]
    cases (g x).findSome? f <;> rfl

end CallClusters
