import CallClusters.Proofs.Partition.Modularity

/-! What modularity does not depend on. Of the arcs only the sums count, whatever their order, their
direction and their scale. Of the communities it only counts which nodes are together, that is, which
have the same first community. -/

namespace CallClusters

/-! ### Names that are together -/

namespace Partition

variable {p q : Partition} {x y name : String}

theorem communityOf_cons (m : List String) (p : Partition) :
    communityOf (m :: p) name = if name ∈ m then some 0 else (p.communityOf name).map (· + 1) := by
  simp [communityOf, List.findIdx?_cons]

/-- Both names have a community, and the same. -/
def Together (p : Partition) (x y : String) : Prop :=
  ∃ c, p.communityOf x = some c ∧ p.communityOf y = some c

theorem together_cons {m : List String} :
    Together (m :: p) x y ↔ x ∈ m ∧ y ∈ m ∨ x ∉ m ∧ y ∉ m ∧ p.Together x y := by
  unfold Together
  rw [communityOf_cons, communityOf_cons]
  by_cases hx : x ∈ m <;> by_cases hy : y ∈ m <;> simp [hx, hy]

/-- Empty communities list no name. -/
theorem together_filter : Together (p.filter fun m => !m.isEmpty) x y ↔ p.Together x y := by
  induction p with
  | nil => rfl
  | cons m p ih =>
    cases m with
    | nil => simpa [together_cons] using ih
    | cons name names =>
      rw [List.filter_cons_of_pos rfl, together_cons, together_cons, ih]

theorem together_iff_of_disjoint (hd : p.Pairwise List.Disjoint) :
    p.Together x y ↔ ∃ m ∈ p, x ∈ m ∧ y ∈ m := by
  simp only [Together, communityOf_eq_some_iff_of_disjoint hd]
  constructor
  · rintro ⟨c, ⟨m, hm, hx⟩, m', hm', hy⟩
    cases hm.symm.trans hm'
    exact ⟨m, List.mem_of_getElem? hm, hx, hy⟩
  · rintro ⟨m, hm, hx, hy⟩
    obtain ⟨c, hc⟩ := List.mem_iff_getElem?.1 hm
    exact ⟨c, ⟨m, hc, hx⟩, m, hc, hy⟩

/-- The order of disjoint communities is of no account. -/
theorem together_perm (hd : p.Pairwise List.Disjoint) (hperm : q.Perm p) :
    q.Together x y ↔ p.Together x y := by
  have hq : q.Pairwise List.Disjoint := (hperm.pairwise_iff fun h => h.symm).2 hd
  rw [together_iff_of_disjoint hd, together_iff_of_disjoint hq]
  exact exists_congr fun m => and_congr_left fun _ => hperm.mem_iff

/-- Community by community both partitions list the name or both do not. -/
theorem communityOf_congr (h : List.Forall₂ (fun m m' => name ∈ m ↔ name ∈ m') p q) :
    p.communityOf name = q.communityOf name := by
  induction h with
  | nil => rfl
  | cons hname _ ih => simp only [communityOf_cons, hname, ih]

theorem communityOf_restrict {names : List String} (hname : name ∈ names) :
    communityOf (p.map (·.filter (· ∈ names))) name = p.communityOf name := by
  refine communityOf_congr (List.forall₂_map_left_iff.2 (List.forall₂_same.2 fun m _ => ?_))
  simp [hname]

/-- The second partition lists what the first does, except for some names that the first lists in an
earlier community too. -/
def Trims (p q : Partition) : Prop :=
  p.length = q.length ∧ ∀ (i : Nat) (m m' : List String), p[i]? = some m → q[i]? = some m' →
    m' ⊆ m ∧ ∀ name ∈ m, name ∉ m' → ∃ j < i, ∃ earlier, p[j]? = some earlier ∧ name ∈ earlier

/-- A name stays in its first community. -/
theorem communityOf_of_trims (h : p.Trims q) : p.communityOf name = q.communityOf name := by
  obtain ⟨hlength, h⟩ := h
  have hmember {i : Nat} {m' : List String} (hm' : q[i]? = some m') :
      ∃ m, p[i]? = some m ∧ m' ⊆ m := by
    have hi : i < p.length := hlength ▸ (List.getElem?_eq_some_iff.1 hm').1
    have hm := List.getElem?_eq_getElem hi
    exact ⟨_, hm, (h i _ _ hm hm').1⟩
  symm
  cases hname : p.communityOf name with
  | none =>
    rw [communityOf_eq_none_iff] at hname ⊢
    intro m' hm' hmem
    obtain ⟨i, hi⟩ := List.mem_iff_getElem?.1 hm'
    obtain ⟨m, hm, hsub⟩ := hmember hi
    exact hname m (List.mem_of_getElem? hm) (hsub hmem)
  | some c =>
    rw [communityOf_eq_some_iff] at hname ⊢
    obtain ⟨⟨m, hm, hmem⟩, hfirst⟩ := hname
    have hc : c < q.length := hlength ▸ (List.getElem?_eq_some_iff.1 hm).1
    have hm' := List.getElem?_eq_getElem hc
    refine ⟨⟨_, hm', ?_⟩, fun j hj m' hj' hmem' => ?_⟩
    · by_contra hlost
      obtain ⟨j, hj, earlier, hearlier, hlisted⟩ := (h c _ _ hm hm').2 name hmem hlost
      exact hfirst j hj earlier hearlier hlisted
    · obtain ⟨m, hm, hsub⟩ := hmember hj'
      exact hfirst j hj m hm (hsub hmem')

end Partition

/-! ### Other arcs -/

def Arc.reverse (arc : Arc Rat) : Arc Rat := ⟨arc.target, arc.source, arc.weight⟩

def Arc.scale (k : Rat) (arc : Arc Rat) : Arc Rat := ⟨arc.source, arc.target, k * arc.weight⟩

namespace Adjacency

variable {a b : Adjacency Rat} {p q : Partition}

/-- All arcs the other way round. -/
def reverse (a : Adjacency Rat) : Adjacency Rat where
  names := a.names
  arcs := a.arcs.map Arc.reverse
  bounded := List.forall_mem_map.2 fun arc harc => (a.bounded arc harc).symm

/-- All weights times a constant. -/
def scale (a : Adjacency Rat) (k : Rat) : Adjacency Rat where
  names := a.names
  arcs := a.arcs.map (Arc.scale k)
  bounded := List.forall_mem_map.2 a.bounded

theorem together_comm (i j : Nat) : a.Together p i j ↔ a.Together p j i :=
  exists_congr fun _ => and_comm

section Perm
variable (hnames : b.names = a.names) (harcs : b.arcs.Perm a.arcs)

include harcs in
theorem arcSum_perm (f : Arc Rat → Rat) : b.arcSum f = a.arcSum f := (harcs.map f).sum_eq

include hnames in
theorem together_names (i j : Nat) : b.Together p i j ↔ a.Together p i j := by
  simp only [Together, home, hnames]

include hnames harcs in
theorem modularity_perm (p : Partition) : b.modularity p = a.modularity p := by
  simp only [modularity_eq_weights, togetherWeight, crossWeight, totalWeight_eq_arcSum,
    together_names hnames, arcSum_perm harcs]

end Perm

section Reverse
variable (a p)

theorem arcSum_reverse (f : Arc Rat → Rat) :
    a.reverse.arcSum f = a.arcSum fun arc => f arc.reverse :=
  congrArg List.sum List.map_map

theorem totalWeight_reverse : a.reverse.totalWeight = a.totalWeight := by
  rw [totalWeight_eq_arcSum, arcSum_reverse, totalWeight_eq_arcSum]
  rfl

theorem togetherWeight_reverse : a.reverse.togetherWeight p = a.togetherWeight p := by
  rw [togetherWeight, arcSum_reverse]
  exact arcSum_congr fun arc _ => if_congr (together_comm _ _) rfl rfl

/-- What leaves a community on the way there enters it on the way back. -/
theorem crossWeight_reverse : a.reverse.crossWeight p = a.crossWeight p := by
  rw [crossWeight, arcSum_comm, arcSum_reverse]
  refine arcSum_congr fun x _ => ?_
  rw [arcSum_reverse]
  exact arcSum_congr fun y _ => if_congr (together_comm _ _) (mul_comm _ _) rfl

theorem modularity_reverse : a.reverse.modularity p = a.modularity p := by
  rw [modularity_eq_weights, modularity_eq_weights, totalWeight_reverse, togetherWeight_reverse,
    crossWeight_reverse]

end Reverse

section Scale
variable (a p) (k : Rat)

theorem arcSum_scale (f : Arc Rat → Rat) :
    (a.scale k).arcSum f = a.arcSum fun arc => f (arc.scale k) :=
  congrArg List.sum List.map_map

theorem totalWeight_scale : (a.scale k).totalWeight = k * a.totalWeight := by
  rw [totalWeight_eq_arcSum, arcSum_scale, totalWeight_eq_arcSum, ← arcSum_mul_left]
  rfl

theorem togetherWeight_scale : (a.scale k).togetherWeight p = k * a.togetherWeight p := by
  rw [togetherWeight, arcSum_scale, togetherWeight, ← arcSum_mul_left]
  refine arcSum_congr fun arc _ => ?_
  rw [mul_ite, mul_zero]
  rfl

theorem crossWeight_scale : (a.scale k).crossWeight p = k ^ 2 * a.crossWeight p := by
  rw [crossWeight, arcSum_scale, crossWeight, ← arcSum_mul_left]
  refine arcSum_congr fun x _ => ?_
  rw [arcSum_scale, ← arcSum_mul_left]
  refine arcSum_congr fun y _ => ?_
  rw [mul_ite, mul_zero, sq, ← mul_mul_mul_comm]
  rfl

/-- The constant cancels, also where there is no weight. -/
theorem modularity_scale (hk : k ≠ 0) : (a.scale k).modularity p = a.modularity p := by
  rw [modularity_eq_weights, modularity_eq_weights, totalWeight_scale, togetherWeight_scale,
    crossWeight_scale, mul_pow, mul_div_mul_left _ _ hk, mul_div_mul_left _ _ (pow_ne_zero 2 hk)]
  simp only [mul_eq_zero, hk, false_or]

end Scale

/-! ### Other communities -/

theorem together_of_names (h : ∀ x ∈ a.names, ∀ y ∈ a.names, q.Together x y ↔ p.Together x y)
    (i j : Nat) : a.Together q i j ↔ a.Together p i j := by
  unfold Together home
  cases hx : a.names[i]? with
  | none => simp
  | some x =>
    cases hy : a.names[j]? with
    | none => simp
    | some y => exact h x (List.mem_of_getElem? hx) y (List.mem_of_getElem? hy)

/-- Two partitions that have the same nodes together are worth the same. -/
theorem modularity_congr (h : ∀ x ∈ a.names, ∀ y ∈ a.names, q.Together x y ↔ p.Together x y) :
    a.modularity q = a.modularity p := by
  simp only [modularity_eq_weights, togetherWeight, crossWeight, together_of_names h]

theorem modularity_congr_communityOf (h : ∀ x ∈ a.names, q.communityOf x = p.communityOf x) :
    a.modularity q = a.modularity p :=
  modularity_congr fun x hx y hy => by rw [Partition.Together, h x hx, h y hy, Partition.Together]

/-- The order of the arcs, their direction and the scale of their weights make no difference. Nor do
empty communities, names of no node, the order of a community's names and how often it lists them, or
names that an earlier community lists; and nor does the order of disjoint communities. -/
theorem modularity_invariant (a : Adjacency Rat) (p : Partition) :
    (∀ b : Adjacency Rat, b.names = a.names → b.arcs.Perm a.arcs →
      b.modularity p = a.modularity p) ∧
    a.reverse.modularity p = a.modularity p ∧
    (∀ k : Rat, k ≠ 0 → (a.scale k).modularity p = a.modularity p) ∧
    (∀ q : Partition, (q.filter fun m => !m.isEmpty) = p.filter (fun m => !m.isEmpty) →
      a.modularity q = a.modularity p) ∧
    (∀ q : Partition, q.map (·.filter (· ∈ a.names)) = p.map (·.filter (· ∈ a.names)) →
      a.modularity q = a.modularity p) ∧
    (∀ q : Partition, List.Forall₂ (fun m m' => ∀ name, name ∈ m ↔ name ∈ m') q p →
      a.modularity q = a.modularity p) ∧
    (∀ q : Partition, p.Trims q → a.modularity q = a.modularity p) ∧
    (p.Pairwise List.Disjoint → ∀ q : Partition, q.Perm p → a.modularity q = a.modularity p) := by
  refine ⟨fun b hnames harcs => modularity_perm hnames harcs p, a.modularity_reverse p,
    fun k hk => a.modularity_scale p k hk, fun q hfilter => ?_, fun q hrestrict => ?_,
    fun q hsame => ?_, fun q htrims => ?_, fun hdisjoint q hperm => ?_⟩
  · refine modularity_congr fun x _ y _ => ?_
    rw [← Partition.together_filter, hfilter, Partition.together_filter]
  · refine modularity_congr_communityOf fun x hx => ?_
    rw [← Partition.communityOf_restrict hx, hrestrict, Partition.communityOf_restrict hx]
  · refine modularity_congr_communityOf fun x _ => Partition.communityOf_congr ?_
    exact hsame.imp fun _ _ h => h x
  · exact modularity_congr_communityOf fun x _ => (Partition.communityOf_of_trims htrims).symm
  · exact modularity_congr fun x _ y _ => Partition.together_perm hdisjoint hperm

/-- Parallel arcs, a loop, a negative weight and an overlap; and the same of disjoint communities. -/
theorem modularity_invariant_overlap :
    let a : Adjacency Rat :=
      ⟨["A", "B", "C"], [⟨0, 1, 2⟩, ⟨0, 1, 5⟩, ⟨1, 2, 3⟩, ⟨2, 2, -1⟩], by decide⟩
    let b : Adjacency Rat :=
      ⟨["A", "B", "C"], [⟨2, 2, -1⟩, ⟨1, 2, 3⟩, ⟨0, 1, 5⟩, ⟨0, 1, 2⟩], by decide⟩
    let p : Partition := [["A", "B"], ["B", "C"]]
    a.modularity p ≠ 0 ∧
    b.modularity p = a.modularity p ∧
    a.reverse.modularity p = a.modularity p ∧
    (a.scale (-2)).modularity p = a.modularity p ∧
    a.modularity [[], ["A", "B"], [], ["B", "C"]] = a.modularity p ∧
    a.modularity [["A", "Z", "B"], ["B", "C"]] = a.modularity p ∧
    a.modularity [["B", "A", "B"], ["C", "B"]] = a.modularity p ∧
    a.modularity [["A", "B"], ["C"]] = a.modularity p ∧
    a.modularity [["C"], ["A", "B"]] = a.modularity [["A", "B"], ["C"]] := by
  intro a b p
  obtain ⟨hperm, hreverse, hscale, hempty, hforeign, hsame, htrims, -⟩ := modularity_invariant a p
  obtain ⟨-, -, -, -, -, -, -, hdisjoint⟩ := modularity_invariant a [["A", "B"], ["C"]]
  have harcs : b.arcs.Perm a.arcs := List.reverse_perm a.arcs
  have hnames : List.Forall₂ (fun m m' => ∀ name, name ∈ m ↔ name ∈ m')
      [["B", "A", "B"], ["C", "B"]] p := by
    simp [p, or_comm]
  have htrimmed : p.Trims [["A", "B"], ["C"]] := by
    refine ⟨rfl, fun i m m' hm hm' => ?_⟩
    rcases i with _ | _ | i
    · cases hm
      cases hm'
      exact ⟨List.Subset.refl _, fun name hmem hlost => absurd hmem hlost⟩
    · cases hm
      cases hm'
      refine ⟨by simp, fun name hmem hlost => ⟨0, by decide, ["A", "B"], rfl, ?_⟩⟩
      simp_all
    · cases hm
  exact ⟨by decide +kernel, hperm b rfl harcs, hreverse, hscale _ (by decide), hempty _ (by decide),
    hforeign _ (by decide), hsame _ hnames, htrims _ htrimmed,
    hdisjoint (by simp) _ (by decide)⟩

end Adjacency

end CallClusters
