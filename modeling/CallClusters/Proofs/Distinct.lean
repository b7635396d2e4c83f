import Mathlib.Data.List.Induction
import Mathlib.Data.List.Nodup
import Mathlib.Data.List.Perm.Basic

/-! Lists from which later repetitions have been dropped, look-ups among distinct keys, and lists split
into groups that share a key. -/

namespace CallClusters

variable {α β : Type}

section Repetitions
variable [BEq α] [LawfulBEq α]

theorem nodup_eraseDups (xs : List α) : xs.eraseDups.Nodup := by
  match xs with
  | [] => simp
  | x :: xs =>
    rw [List.eraseDups_cons, List.nodup_cons]
    exact ⟨by simp, nodup_eraseDups (xs.filter fun y => !y == x)⟩
termination_by xs.length
decreasing_by exact Nat.lt_succ_of_le (List.length_filter_le _ _)

theorem eraseDups_eq_self {xs : List α} (h : xs.Nodup) : xs.eraseDups = xs := by
  induction xs with
  | nil => rfl
  | cons x xs ih =>
    obtain ⟨hx, hxs⟩ := List.nodup_cons.1 h
    have hkeep : xs.filter (fun y => !y == x) = xs := by
      rw [List.filter_eq_self]
      intro y hy
      have : y ≠ x := fun hyx => hx (hyx ▸ hy)
      simpa using this
    rw [List.eraseDups_cons, hkeep, ih hxs]

/-- Which elements repeat is not changed by an injection. -/
theorem eraseDups_map_of_injective [BEq β] [LawfulBEq β] {f : α → β} (hf : Function.Injective f)
    (xs : List α) : (xs.map f).eraseDups = xs.eraseDups.map f := by
  match xs with
  | [] => rfl
  | x :: xs =>
    have hkept : (fun y => !y == f x) ∘ f = fun y => !y == x := by
      funext y
      rw [Function.comp_apply, Bool.eq_iff_iff]
      simp [hf.eq_iff]
    rw [List.map_cons, List.eraseDups_cons, List.filter_map, hkept, List.eraseDups_cons,
      List.map_cons, eraseDups_map_of_injective hf (xs.filter fun y => !y == x)]
termination_by xs.length
decreasing_by exact Nat.lt_succ_of_le (List.length_filter_le _ _)

/-- Elements in another order are the same elements. -/
theorem eraseDups_perm {xs ys : List α} (h : xs.Perm ys) : xs.eraseDups.Perm ys.eraseDups := by
  rw [List.perm_ext_iff_of_nodup (nodup_eraseDups xs) (nodup_eraseDups ys)]
  intro x
  rw [List.mem_eraseDups, List.mem_eraseDups, h.mem_iff]

theorem eraseDups_concat_of_mem {xs : List α} {x : α} (h : x ∈ xs) :
    (xs ++ [x]).eraseDups = xs.eraseDups := by
  simp [List.eraseDups_append, List.removeAll, h]

theorem eraseDups_concat_of_not_mem {xs : List α} {x : α} (h : x ∉ xs) :
    (xs ++ [x]).eraseDups = xs.eraseDups ++ [x] := by
  simp [List.eraseDups_append, List.removeAll, h, List.eraseDups_cons]

theorem eraseDups_append_cons_of_mem {xs ys : List α} {x : α} (h : x ∈ xs) :
    (xs ++ x :: ys).eraseDups = (xs ++ ys).eraseDups := by
  simp [List.eraseDups_append, List.removeAll, h]

/-- What is kept stays in the order in which it first came. -/
theorem pairwise_idxOf_eraseDups (xs : List α) :
    xs.eraseDups.Pairwise fun x y => xs.idxOf x < xs.idxOf y := by
  induction xs using List.reverseRecOn with
  | nil => simp
  | append_singleton xs x ih =>
    have hold {y : α} (hy : y ∈ xs.eraseDups) : (xs ++ [x]).idxOf y = xs.idxOf y :=
      List.idxOf_append_of_mem (List.mem_eraseDups.1 hy)
    have hkept : xs.eraseDups.Pairwise fun y z => (xs ++ [x]).idxOf y < (xs ++ [x]).idxOf z := by
      apply ih.imp_of_mem
      intro y z hy hz hlt
      rwa [hold hy, hold hz]
    by_cases hx : x ∈ xs
    · rwa [eraseDups_concat_of_mem hx]
    · rw [eraseDups_concat_of_not_mem hx, List.pairwise_append]
      refine ⟨hkept, List.pairwise_singleton _ _, fun y hy z hz => ?_⟩
      have hlast : (xs ++ [x]).idxOf x = xs.length := by
        rw [List.idxOf_append_of_notMem hx, List.idxOf_cons_self, Nat.add_zero]
      rw [List.mem_singleton.1 hz, hlast, hold hy]
      exact List.idxOf_lt_length_of_mem (List.mem_eraseDups.1 hy)

theorem idxOf?_concat {xs : List α} {x : α} (h : x ∉ xs) (y : α) :
    (xs ++ [x]).idxOf? y = if y == x then some xs.length else xs.idxOf? y := by
  by_cases hyx : y = x
  · subst hyx
    have hnone : xs.findIdx? (· == y) = none := List.idxOf?_eq_none_iff.2 h
    simp [List.idxOf?, List.findIdx?_append, hnone]
  · simp [List.idxOf?, List.findIdx?_append, hyx, Ne.symm hyx]

end Repetitions

/-- With distinct keys, what is looked up is what the list has. -/
theorem lookup_eq_some_iff_of_nodup [BEq α] [LawfulBEq α] {xs : List (α × β)}
    (h : (xs.map Prod.fst).Nodup) {key : α} {value : β} :
    xs.lookup key = some value ↔ (key, value) ∈ xs := by
  induction xs with
  | nil => simp
  | cons x xs ih =>
    obtain ⟨hx, hxs⟩ := List.nodup_cons.1 h
    rw [List.lookup_cons]
    by_cases hkey : key = x.1
    · subst hkey
      have hlater : (x.1, value) ∉ xs := fun hmem => hx (List.mem_map.2 ⟨_, hmem, rfl⟩)
      simp [hlater, Prod.ext_iff, eq_comm]
    · have hne : (key, value) ≠ x := fun heq => hkey (congrArg Prod.fst heq)
      rw [beq_eq_false_iff_ne.2 hkey, List.mem_cons, or_iff_right hne]
      exact ih hxs

section Groups
variable [BEq β] [LawfulBEq β]

/-- Split along different keys, a list loses nothing and gains nothing. -/
theorem flatten_filter_perm {key : α → β} {ks : List β} (hks : ks.Nodup) {xs : List α}
    (h : ∀ x ∈ xs, key x ∈ ks) :
    (ks.map fun k => xs.filter fun x => key x == k).flatten.Perm xs := by
  induction ks generalizing xs with
  | nil =>
    cases xs with
    | nil => exact .refl _
    | cons x xs => cases h x (by simp)
  | cons k ks ih =>
    obtain ⟨hk, hks⟩ := List.nodup_cons.1 hks
    have hrest : ∀ x ∈ xs.filter fun x => !key x == k, key x ∈ ks := by
      intro x hx
      obtain ⟨hx, hne⟩ := List.mem_filter.1 hx
      exact (List.mem_cons.1 (h x hx)).resolve_left (by simpa using hne)
    -- What has the first key is in none of the later parts.
    have hsame : (ks.map fun l => (xs.filter fun x => !key x == k).filter fun x => key x == l) =
        ks.map fun l => xs.filter fun x => key x == l := by
      apply List.map_congr_left
      intro l hl
      have hne : l ≠ k := fun hlk => hk (hlk ▸ hl)
      rw [List.filter_filter]
      apply List.filter_congr
      intro x _
      by_cases hx : key x = l <;> simp [hx, hne]
    rw [List.map_cons, List.flatten_cons, ← hsame]
    exact ((ih hks hrest).append_left _).trans (List.filter_append_perm _ xs)

/-- The elements that share a key, group by group, in the order of the keys' first elements. -/
def groupsBy (key : α → β) (xs : List α) : List (List α) :=
  (xs.map key).eraseDups.map fun k => xs.filter fun x => key x == k

theorem groupsBy_cons (key : α → β) (x : α) (xs : List α) :
    groupsBy key (x :: xs) =
      (x :: xs.filter fun y => key y == key x) ::
        groupsBy key (xs.filter fun y => !key y == key x) := by
  simp only [groupsBy, List.map_cons, List.eraseDups_cons, List.filter_cons, beq_self_eq_true,
    if_true, List.filter_map, Function.comp_def]
  congr 1
  apply List.map_congr_left
  intro k hk
  -- A later key differs from the first one, so its group loses nothing with the first group.
  have hne : k ≠ key x := by
    simp only [List.mem_eraseDups, List.mem_map, List.mem_filter] at hk
    obtain ⟨y, ⟨-, hy⟩, rfl⟩ := hk
    simpa using hy
  have hx : (key x == k) = false := by simpa using hne.symm
  rw [hx, List.filter_filter]
  simp only [Bool.false_eq_true, if_false]
  apply List.filter_congr
  intro y _
  by_cases hy : key y = k
  · simp [hy, hne]
  · simp [hy]

/-- One more element goes to the end of its key's group. -/
theorem groupsBy_concat_of_mem {key : α → β} {xs : List α} {x : α} {slot : Nat}
    (h : (xs.map key).eraseDups.idxOf? (key x) = some slot) :
    groupsBy key (xs ++ [x]) = (groupsBy key xs).modify slot (· ++ [x]) := by
  obtain ⟨hlt, hkey, -⟩ := List.idxOf?_eq_some_iff.1 h
  have hmem : key x ∈ xs.map key := by
    rw [← List.mem_eraseDups, ← hkey]
    exact List.getElem_mem hlt
  rw [groupsBy, List.map_append, List.map_singleton, eraseDups_concat_of_mem hmem]
  apply List.ext_getElem
  · simp [groupsBy]
  · intro i hi hi'
    have hi'' : i < (xs.map key).eraseDups.length := by simpa [groupsBy] using hi'
    simp only [groupsBy, List.getElem_map, List.getElem_modify, List.filter_append]
    by_cases his : slot = i
    · subst his
      simp [hkey]
    · have hne : key x ≠ (xs.map key).eraseDups[i] := by
        rw [← hkey]
        exact fun he => his ((nodup_eraseDups _).getElem_inj_iff.1 he)
      simp [his, hne]

/-- An element with a new key makes a group of its own. -/
theorem groupsBy_concat_of_not_mem {key : α → β} {xs : List α} {x : α}
    (h : key x ∉ xs.map key) : groupsBy key (xs ++ [x]) = groupsBy key xs ++ [[x]] := by
  have hnew : xs.filter (fun y => key y == key x) = [] := by
    simp only [List.filter_eq_nil_iff, beq_iff_eq]
    exact fun y hy he => h (List.mem_map.2 ⟨y, hy, he⟩)
  rw [groupsBy, List.map_append, List.map_singleton, eraseDups_concat_of_not_mem h,
    List.map_append]
  congr 1
  · apply List.map_congr_left
    intro k hk
    have hne : (key x == k) = false := by
      rw [List.mem_eraseDups] at hk
      simpa using fun he : key x = k => h (he ▸ hk)
    simp [hne]
  · simp [hnew]

theorem mem_groupsBy {key : α → β} {xs g : List α} :
    g ∈ groupsBy key xs ↔ ∃ x ∈ xs, g = xs.filter fun y => key y == key x := by
  simp [groupsBy, eq_comm]

theorem nil_not_mem_groupsBy (key : α → β) (xs : List α) : [] ∉ groupsBy key xs := by
  intro h
  obtain ⟨x, hx, hnil⟩ := mem_groupsBy.1 h
  have : x ∈ xs.filter fun y => key y == key x := by simp [hx]
  rw [← hnil] at this
  cases this

/-- Elements share a group exactly when they share a key. -/
theorem mem_groupsBy_both {key : α → β} {xs : List α} {x y : α} (hx : x ∈ xs) (hy : y ∈ xs) :
    (∃ g ∈ groupsBy key xs, x ∈ g ∧ y ∈ g) ↔ key x = key y := by
  constructor
  · rintro ⟨g, hg, hxg, hyg⟩
    obtain ⟨z, -, rfl⟩ := mem_groupsBy.1 hg
    simp only [List.mem_filter, beq_iff_eq] at hxg hyg
    exact hxg.2.trans hyg.2.symm
  · intro h
    exact ⟨_, mem_groupsBy.2 ⟨x, hx, rfl⟩, by simp [hx], by simp [hy, h]⟩

/-- Every element is in one group, once. -/
theorem flatten_groupsBy_perm (key : α → β) (xs : List α) : (groupsBy key xs).flatten.Perm xs :=
  flatten_filter_perm (nodup_eraseDups _) fun _ hx =>
    List.mem_eraseDups.2 (List.mem_map_of_mem hx)

/-- The groups' first elements come in the order of the list. -/
theorem pairwise_head_groupsBy {R : α → α → Prop} (key : α → β) {xs : List α}
    (h : xs.Pairwise R) :
    (groupsBy key xs).Pairwise fun g k => ∀ x ∈ g.head?, ∀ y ∈ k.head?, R x y := by
  match xs with
  | [] => exact .nil
  | x :: xs =>
    obtain ⟨hx, hxs⟩ := List.pairwise_cons.1 h
    rw [groupsBy_cons, List.pairwise_cons]
    refine ⟨?_, pairwise_head_groupsBy key (hxs.filter _)⟩
    intro k hk a ha b hb
    have hbk : b ∈ (groupsBy key (xs.filter fun y => !key y == key x)).flatten :=
      List.mem_flatten.2 ⟨k, hk, List.mem_of_mem_head? hb⟩
    have hbx := List.mem_of_mem_filter ((flatten_groupsBy_perm _ _).mem_iff.1 hbk)
    cases ha
    exact hx b hbx
termination_by xs.length
decreasing_by exact Nat.lt_succ_of_le (List.length_filter_le _ _)

end Groups

end CallClusters
