import CallClusters.Proofs.Number
import CallClusters.Proofs.Partition.Accumulation
import Mathlib.Algebra.BigOperators.Field
import Mathlib.Algebra.BigOperators.Ring.List
import Mathlib.Algebra.BigOperators.Ring.Multiset
import Mathlib.Algebra.Field.Rat

/-! Modularity in exact arithmetic. The weights that are tallied for each community are sums over
arcs, and the sum over communities only asks which ends have the same community. So modularity is a
sum over arcs and pairs of arcs, and by grouping them by their ends one over pairs of nodes. -/

namespace CallClusters.Adjacency

open Finset

variable (a : Adjacency Rat) (p : Partition)

/-! ### Sums over arcs -/

def arcSum (f : Arc Rat → Rat) : Rat := (a.arcs.map f).sum

section Sums
variable {a} {f g : Arc Rat → Rat}

theorem arcSum_congr (h : ∀ arc ∈ a.arcs, f arc = g arc) : a.arcSum f = a.arcSum g := by
  rw [arcSum, List.map_congr_left h, arcSum]

theorem arcSum_mul_left (k : Rat) : (a.arcSum fun arc => k * f arc) = k * a.arcSum f :=
  List.sum_map_mul_left ..

theorem arcSum_mul_right (k : Rat) : (a.arcSum fun arc => f arc * k) = a.arcSum f * k :=
  List.sum_map_mul_right ..

theorem arcSum_finset_sum {ι : Type} (s : Finset ι) (f : ι → Arc Rat → Rat) :
    (a.arcSum fun arc => ∑ i ∈ s, f i arc) = ∑ i ∈ s, a.arcSum (f i) := by
  have h := Multiset.sum_map_sum_map (a.arcs : Multiset (Arc Rat)) s.val (f := fun arc i => f i arc)
  simp only [Multiset.map_coe, Multiset.sum_coe] at h
  exact h

theorem arcSum_comm (f : Arc Rat → Arc Rat → Rat) :
    (a.arcSum fun x => a.arcSum fun y => f x y) = a.arcSum fun y => a.arcSum fun x => f x y := by
  have h := Multiset.sum_map_sum_map (a.arcs : Multiset (Arc Rat)) (a.arcs : Multiset (Arc Rat))
    (f := f)
  simp only [Multiset.map_coe, Multiset.sum_coe] at h
  exact h

theorem arcSum_mul_arcSum :
    a.arcSum f * a.arcSum g = a.arcSum fun x => a.arcSum fun y => f x * g y := by
  simp only [arcSum_mul_left, arcSum_mul_right]

end Sums

/-! ### The weight of some of the arcs -/

/-- The summed weight of the arcs that satisfy a condition. -/
def weightOf (s : Arc Rat → Bool) : Rat := ((a.arcs.filter s).map Arc.weight).sum

theorem weightOf_eq_arcSum (s : Arc Rat → Bool) :
    a.weightOf s = a.arcSum fun arc => if s arc then arc.weight else 0 := by
  unfold weightOf arcSum
  induction a.arcs with
  | nil => rfl
  | cons arc arcs ih =>
    rw [List.map_cons, List.sum_cons, ← ih, List.filter_cons]
    cases s arc with
    | true => rfl
    | false => exact (zero_add _).symm

theorem totalWeight_eq_arcSum : a.totalWeight = a.arcSum Arc.weight := Number.sum_eq _

/-! ### Communities of positions -/

/-- The first community that lists the name at a position. -/
def home (i : Nat) : Option Nat := a.names[i]?.bind p.communityOf

/-- Both positions have a community, and the same. -/
def Together (i j : Nat) : Prop := ∃ c, a.home p i = some c ∧ a.home p j = some c

theorem together_iff {i j : Nat} :
    a.Together p i j ↔ (a.home p i).isSome ∧ a.home p i = a.home p j := by
  constructor
  · rintro ⟨c, hi, hj⟩
    exact ⟨by rw [hi]; rfl, hi.trans hj.symm⟩
  · rintro ⟨hsome, heq⟩
    obtain ⟨c, hc⟩ := Option.isSome_iff_exists.1 hsome
    exact ⟨c, hc, heq ▸ hc⟩

instance (i j : Nat) : Decidable (a.Together p i j) := decidable_of_iff' _ (a.together_iff p)

theorem communityAt_index_eq_home (i : Nat) : a.communityAt p.index i = a.home p i :=
  congrArg _ (funext p.lookup_index)

theorem lt_of_home {i c : Nat} (h : a.home p i = some c) : c < p.length :=
  lt_of_communityAt ((a.communityAt_index_eq_home p i).trans h)

/-- The weight of the arcs within a community. -/
def inside (c : Nat) : Rat :=
  a.weightOf fun arc => a.home p arc.source == some c && a.home p arc.target == some c

/-- The weight of the arcs out of members of a community. -/
def leaving (c : Nat) : Rat := a.weightOf fun arc => a.home p arc.source == some c

/-- The weight of the arcs into members of a community. -/
def entering (c : Nat) : Rat := a.weightOf fun arc => a.home p arc.target == some c

/-- Tallying the placed arcs adds up these weights. -/
theorem tally_map_place (s : Placed Rat → Bool) :
    Number.tally (((a.arcs.map (a.place p.index)).filter s).map Placed.weight) =
      a.weightOf fun arc => s ⟨a.home p arc.source, a.home p arc.target, arc.weight⟩ := by
  have hplace (arc : Arc Rat) : a.place p.index arc =
      ⟨a.home p arc.source, a.home p arc.target, arc.weight⟩ := by
    rw [place, communityAt_index_eq_home, communityAt_index_eq_home]
  rw [Number.tally_eq, List.filter_map, List.map_map, funext hplace]
  rfl

/-- The tallies community by community. -/
theorem modularity_eq_sum :
    a.modularity p = if a.totalWeight = 0 then 0 else
      ∑ c ∈ range p.length, (a.inside p c / a.totalWeight -
        a.leaving p c * a.entering p c / a.totalWeight ^ 2) := by
  have hzero : Number.isZero a.totalWeight = decide (a.totalWeight = 0) := rfl
  simp only [modularity, hzero, decide_eq_true_eq, internalWeight, outWeight, inWeight,
    tally_map_place, Number.sum_eq, sq]
  split
  · rfl
  · rfl

/-! ### Without communities -/

/-- Of all communities at most one has both positions. -/
theorem sum_home_eq (i j : Nat) (w : Rat) :
    (∑ c ∈ range p.length, if a.home p i = some c ∧ a.home p j = some c then w else 0) =
      if a.Together p i j then w else 0 := by
  by_cases h : a.Together p i j
  · obtain ⟨c, hi, hj⟩ := id h
    rw [if_pos h, Finset.sum_eq_single c]
    · exact if_pos ⟨hi, hj⟩
    · exact fun d _ hd => if_neg fun hother => hd (Option.some.inj (hother.1.symm.trans hi))
    · exact fun hc => absurd (mem_range.2 (a.lt_of_home p hi)) hc
  · rw [if_neg h]
    exact Finset.sum_eq_zero fun c _ => if_neg fun hc => h ⟨c, hc⟩

/-- The weight of the arcs whose ends have the same community. -/
def togetherWeight : Rat :=
  a.arcSum fun arc => if a.Together p arc.source arc.target then arc.weight else 0

/-- What the weights of two arcs come to, where the source of the one and the target of the other
have the same community. -/
def crossWeight : Rat :=
  a.arcSum fun x => a.arcSum fun y =>
    if a.Together p x.source y.target then x.weight * y.weight else 0

theorem sum_inside : ∑ c ∈ range p.length, a.inside p c = a.togetherWeight p := by
  simp only [inside, weightOf_eq_arcSum, ← arcSum_finset_sum, Bool.and_eq_true, beq_iff_eq,
    sum_home_eq, togetherWeight]

theorem sum_leaving_mul_entering :
    ∑ c ∈ range p.length, a.leaving p c * a.entering p c = a.crossWeight p := by
  simp only [leaving, entering, weightOf_eq_arcSum, arcSum_mul_arcSum, beq_iff_eq,
    ite_zero_mul_ite_zero, ← arcSum_finset_sum, sum_home_eq, crossWeight]

theorem modularity_eq_weights :
    a.modularity p = if a.totalWeight = 0 then 0 else
      a.togetherWeight p / a.totalWeight - a.crossWeight p / a.totalWeight ^ 2 := by
  rw [modularity_eq_sum, Finset.sum_sub_distrib, ← Finset.sum_div, ← Finset.sum_div, sum_inside,
    sum_leaving_mul_entering]

/-! ### Pairs of nodes -/

/-- The summed weight of all parallel arcs from one position to another. -/
def weightBetween (i j : Nat) : Rat := a.weightOf fun arc => arc.source == i && arc.target == j

/-- The weight of the arcs out of a position. -/
def outDegree (i : Nat) : Rat := a.weightOf fun arc => arc.source == i

/-- The weight of the arcs into a position. -/
def inDegree (i : Nat) : Rat := a.weightOf fun arc => arc.target == i

section Pairs
variable {a p}

/-- Of all pairs of positions just one is that of two ends. -/
theorem sum_pair {i j : Nat} (hi : i < a.names.length) (hj : j < a.names.length) (w : Rat) :
    (∑ u ∈ range a.names.length, ∑ v ∈ range a.names.length,
        if a.Together p u v then if i = u ∧ j = v then w else 0 else 0) =
      if a.Together p i j then w else 0 := by
  have hends (u v : Nat) : (if a.Together p u v then if i = u ∧ j = v then w else 0 else 0) =
      if i = u then if j = v then if a.Together p i j then w else 0 else 0 else 0 := by
    by_cases hu : i = u
    · by_cases hv : j = v
      · simp [hu, hv]
      · simp [hv]
    · simp [hu]
  simp only [hends, Finset.sum_ite_irrel, Finset.sum_ite_eq, Finset.sum_const_zero, mem_range, hi,
    hj, if_true]

theorem arcSum_ite (q : Prop) [Decidable q] (f : Arc Rat → Rat) :
    (if q then a.arcSum f else 0) = a.arcSum fun arc => if q then f arc else 0 := by
  split
  · rfl
  · simp [arcSum]

end Pairs

/-- Grouped by its ends, every arc belongs to one pair. -/
theorem sum_weightBetween :
    (∑ u ∈ range a.names.length, ∑ v ∈ range a.names.length,
      if a.Together p u v then a.weightBetween u v else 0) = a.togetherWeight p := by
  simp only [weightBetween, weightOf_eq_arcSum, Bool.and_eq_true, beq_iff_eq, arcSum_ite,
    ← arcSum_finset_sum]
  refine arcSum_congr fun arc harc => ?_
  exact sum_pair (a.bounded arc harc).1 (a.bounded arc harc).2 arc.weight

theorem sum_degrees :
    (∑ u ∈ range a.names.length, ∑ v ∈ range a.names.length,
      if a.Together p u v then a.outDegree u * a.inDegree v else 0) = a.crossWeight p := by
  simp only [outDegree, inDegree, weightOf_eq_arcSum, beq_iff_eq, arcSum_mul_arcSum,
    ite_zero_mul_ite_zero, arcSum_ite, ← arcSum_finset_sum]
  refine arcSum_congr fun x hx => arcSum_congr fun y hy => ?_
  exact sum_pair (a.bounded x hx).1 (a.bounded y hy).2 (x.weight * y.weight)

/-- The pass over the arcs computes modularity, which is the sum over all pairs of nodes with the same
community of the weight between them and of what their degrees would lead one to expect. -/
theorem modularity_eq_pairs :
    a.modularityInOnePass p = a.modularity p ∧
      a.modularity p = if a.totalWeight = 0 then 0 else
        ∑ u ∈ range a.names.length, ∑ v ∈ range a.names.length,
          if a.Together p u v then
            a.weightBetween u v / a.totalWeight - a.outDegree u * a.inDegree v / a.totalWeight ^ 2
          else 0 := by
  refine ⟨a.modularityInOnePass_eq p, ?_⟩
  have hpair (u v : Nat) : (if a.Together p u v then
        a.weightBetween u v / a.totalWeight - a.outDegree u * a.inDegree v / a.totalWeight ^ 2
      else 0) =
      (if a.Together p u v then a.weightBetween u v else 0) / a.totalWeight -
        (if a.Together p u v then a.outDegree u * a.inDegree v else 0) / a.totalWeight ^ 2 := by
    split
    · rfl
    · rw [zero_div, zero_div, sub_zero]
  simp only [hpair, Finset.sum_sub_distrib, ← Finset.sum_div, sum_weightBetween, sum_degrees,
    modularity_eq_weights]

end CallClusters.Adjacency
