import CallClusters.Partition.Modularity
import Mathlib.Data.List.Basic

/-! The community of a name: the first one that lists it. The table of communities has every listed
name with just that one. -/

namespace CallClusters

/-! ### Tables -/

namespace NameIndex

variable (index : NameIndex) (place : Nat) (other : String)

theorem lookup_enter (name : String) :
    (index.enter name place).1.lookup other =
      (index.lookup other).or (if other = name then some place else none) := by
  unfold enter
  split
  · rename_i i hi
    by_cases h : other = name
    · rw [h, hi, Option.some_or]
    · rw [if_neg h, Option.or_none]
  · rename_i hnone
    rw [List.lookup_cons]
    by_cases h : other = name
    · rw [beq_iff_eq.2 h, if_pos h, h, hnone, Option.none_or]
    · rw [beq_eq_false_iff_ne.2 h, if_neg h, Option.or_none]

/-- A place that was given before stays. -/
theorem lookup_enterAll (names : List String) :
    (index.enterAll place names).lookup other =
      (index.lookup other).or (if other ∈ names then some place else none) := by
  induction names generalizing index with
  | nil => simp [enterAll]
  | cons name names ih =>
    have hstep : index.enterAll place (name :: names) =
        (index.enter name place).1.enterAll place names := rfl
    rw [hstep, ih, lookup_enter, Option.or_assoc]
    congr 1
    by_cases h : other = name <;> simp [h]

end NameIndex

namespace Partition

/-- The position of the first community that lists the name. -/
def communityOf (p : Partition) (name : String) : Option Nat := p.findIdx? fun c => c.contains name

theorem communityOf_eq_some_iff {p : Partition} {name : String} {i : Nat} :
    p.communityOf name = some i ↔
      (∃ m, p[i]? = some m ∧ name ∈ m) ∧ ∀ j < i, ∀ m, p[j]? = some m → name ∉ m := by
  rw [communityOf, List.findIdx?_eq_some_iff_getElem]
  constructor
  · rintro ⟨hi, hmem, hfirst⟩
    refine ⟨⟨p[i], List.getElem?_eq_getElem hi, by simpa using hmem⟩, fun j hj m hm => ?_⟩
    obtain ⟨_, rfl⟩ := List.getElem?_eq_some_iff.1 hm
    simpa using hfirst j hj
  · rintro ⟨⟨m, hm, hmem⟩, hfirst⟩
    obtain ⟨hi, rfl⟩ := List.getElem?_eq_some_iff.1 hm
    refine ⟨hi, by simpa using hmem, fun j hj => ?_⟩
    simpa using hfirst j hj _ (List.getElem?_eq_getElem (Nat.lt_trans hj hi))

theorem lt_of_communityOf {p : Partition} {name : String} {i : Nat}
    (h : p.communityOf name = some i) : i < p.length := by
  obtain ⟨⟨m, hm, -⟩, -⟩ := communityOf_eq_some_iff.1 h
  exact (List.getElem?_eq_some_iff.1 hm).1

theorem communityOf_eq_none_iff {p : Partition} {name : String} :
    p.communityOf name = none ↔ ∀ m ∈ p, name ∉ m := by
  simp [communityOf, List.findIdx?_eq_none_iff]

theorem mem_of_communityOf {p : Partition} {name : String} {i : Nat} {m : List String}
    (h : p.communityOf name = some i) (hm : p[i]? = some m) : name ∈ m := by
  obtain ⟨⟨m', hm', hmem⟩, -⟩ := communityOf_eq_some_iff.1 h
  rw [hm] at hm'
  cases hm'
  exact hmem

/-- Among disjoint communities the first one that lists a name is the only one. -/
theorem communityOf_eq_some_iff_of_disjoint {p : Partition} (hd : p.Pairwise List.Disjoint)
    {name : String} {i : Nat} :
    p.communityOf name = some i ↔ ∃ m, p[i]? = some m ∧ name ∈ m := by
  rw [communityOf_eq_some_iff, and_iff_left_iff_imp]
  rintro ⟨m, hm, hmem⟩ j hj m' hm' hmem'
  obtain ⟨hi, rfl⟩ := List.getElem?_eq_some_iff.1 hm
  obtain ⟨hj', rfl⟩ := List.getElem?_eq_some_iff.1 hm'
  exact List.pairwise_iff_getElem.1 hd j i hj' hi hj hmem' hmem

theorem eq_of_mem_of_disjoint {p : Partition} (hd : p.Pairwise List.Disjoint) {m k : List String}
    (hm : m ∈ p) (hk : k ∈ p) {name : String} (hmem : name ∈ m) (hmem' : name ∈ k) : m = k := by
  obtain ⟨i, hi⟩ := List.mem_iff_getElem?.1 hm
  obtain ⟨j, hj⟩ := List.mem_iff_getElem?.1 hk
  have hfirst : p.communityOf name = some i :=
    (communityOf_eq_some_iff_of_disjoint hd).2 ⟨m, hi, hmem⟩
  rw [(communityOf_eq_some_iff_of_disjoint hd).2 ⟨k, hj, hmem'⟩, Option.some.injEq] at hfirst
  subst hfirst
  rw [hi, Option.some.injEq] at hj
  exact hj

/-! ### The table of communities -/

theorem lookup_indexOnto (index : NameIndex) (place : Nat) (p : Partition) (name : String) :
    (p.indexOnto index place).lookup name =
      (index.lookup name).or ((p.communityOf name).map (· + place)) := by
  induction p generalizing index place with
  | nil => simp [indexOnto, communityOf]
  | cons community p ih =>
    rw [indexOnto, ih, NameIndex.lookup_enterAll, Option.or_assoc, communityOf, communityOf,
      List.findIdx?_cons]
    congr 1
    by_cases h : name ∈ community
    · simp [h]
    · simp [h, Function.comp_def, Nat.add_comm, Nat.add_left_comm]

/-- The table is filled in the order of the communities, so the first one stays. -/
theorem lookup_index (p : Partition) (name : String) : p.index.lookup name = p.communityOf name := by
  simp [index, lookup_indexOnto]

end Partition

end CallClusters
