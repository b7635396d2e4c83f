import CallClusters.Proofs.Partition.Communities
import Mathlib.Data.List.Induction

/-! Modularity in one pass over the arcs. Three lists of tallies have a slot for every community, and
each arc adds its weight to the slots of its ends' communities. After any part of the pass the slots
hold the weights of the arcs so far, so in the end they hold those that modularity is made of. -/

namespace CallClusters.Adjacency

variable {W : Type}

/-! ### Communities of an arc -/

/-- Every community that an end can have has a slot. -/
theorem lt_of_communityAt {a : Adjacency W} {p : Partition} {i c : Nat}
    (h : a.communityAt p.index i = some c) : c < p.length := by
  obtain ⟨name, -, hname⟩ := Option.bind_eq_some_iff.1 h
  rw [Partition.lookup_index] at hname
  exact Partition.lt_of_communityOf hname

namespace Placed

/-- The community of both ends. -/
def common (arc : Placed W) : Option Nat :=
  match arc.source, arc.target with
  | some c, some d => if c = d then some c else none
  | _, _ => none

theorem common_eq_some_iff {arc : Placed W} {c : Nat} :
    arc.common = some c ↔ arc.source = some c ∧ arc.target = some c := by
  obtain ⟨source, target, weight⟩ := arc
  cases source with
  | none => simp [common]
  | some a =>
    cases target with
    | none => simp [common]
    | some b =>
      simp only [common, Option.ite_none_right_eq_some, Option.some.injEq]
      constructor
      · rintro ⟨rfl, rfl⟩
        exact ⟨rfl, rfl⟩
      · rintro ⟨rfl, rfl⟩
        exact ⟨rfl, rfl⟩

theorem common_beq (arc : Placed W) (c : Nat) : (arc.common == some c) = arc.isInside c := by
  rw [Bool.eq_iff_iff, beq_iff_eq, common_eq_some_iff, isInside, Bool.and_eq_true, beq_iff_eq,
    beq_iff_eq]

end Placed

variable [Number W]

/-! ### One list of tallies -/

/-- For every community the weight of the arcs that are filed under it. -/
def filed (count : Nat) (community : Placed W → Option Nat) (arcs : List (Placed W)) : List W :=
  (List.range count).map fun c =>
    Number.tally ((arcs.filter fun arc => community arc == some c).map Placed.weight)

/-- Adds a weight in the slot of a community, if there is one. -/
def addAt (tallies : List W) (community : Option Nat) (weight : W) : List W :=
  match community with
  | some c => tallies.modify c (· + weight)
  | none => tallies

theorem filed_nil (count : Nat) (community : Placed W → Option Nat) :
    filed count community [] = List.replicate count (Number.ofNat 0) := by
  rw [filed, List.eq_replicate_iff]
  exact ⟨by simp, by simp [Number.tally]⟩

/-- One more arc adds its weight to one slot at most. -/
theorem filed_concat (count : Nat) (community : Placed W → Option Nat) (arcs : List (Placed W))
    (arc : Placed W) :
    filed count community (arcs ++ [arc]) =
      addAt (filed count community arcs) (community arc) arc.weight := by
  cases hc : community arc with
  | none => simp [filed, addAt, hc]
  | some c =>
    apply List.ext_getElem
    · simp [filed, addAt]
    intro i hi hmodify
    by_cases h : c = i
    · simp [filed, addAt, hc, h, Number.tally]
    · simp [filed, addAt, hc, h]

theorem filed_common (count : Nat) (arcs : List (Placed W)) :
    filed count Placed.common arcs = (List.range count).map (internalWeight arcs) := by
  simp only [filed, Placed.common_beq]
  rfl

/-! ### Three lists at once -/

/-- The tallies of the arcs within communities, out of them and into them. -/
structure Tallies (W : Type) where
  internal : List W
  outgoing : List W
  incoming : List W

namespace Tallies

/-- All slots are at zero. -/
def start (count : Nat) : Tallies W where
  internal := List.replicate count (Number.ofNat 0)
  outgoing := List.replicate count (Number.ofNat 0)
  incoming := List.replicate count (Number.ofNat 0)

def add (t : Tallies W) (arc : Placed W) : Tallies W where
  internal := addAt t.internal arc.common arc.weight
  outgoing := addAt t.outgoing arc.source arc.weight
  incoming := addAt t.incoming arc.target arc.weight

/-- The tallies have counted just these arcs. -/
structure Counts (t : Tallies W) (count : Nat) (arcs : List (Placed W)) : Prop where
  internal : t.internal = filed count Placed.common arcs
  outgoing : t.outgoing = filed count Placed.source arcs
  incoming : t.incoming = filed count Placed.target arcs

theorem counts_start (count : Nat) : (start count : Tallies W).Counts count [] where
  internal := (filed_nil count _).symm
  outgoing := (filed_nil count _).symm
  incoming := (filed_nil count _).symm

theorem Counts.add {t : Tallies W} {count : Nat} {arcs : List (Placed W)} (h : t.Counts count arcs)
    (arc : Placed W) : (t.add arc).Counts count (arcs ++ [arc]) where
  internal := by rw [filed_concat, ← h.internal, Tallies.add]
  outgoing := by rw [filed_concat, ← h.outgoing, Tallies.add]
  incoming := by rw [filed_concat, ← h.incoming, Tallies.add]

/-- The pass counts all arcs. -/
theorem counts_foldl (count : Nat) (arcs : List (Placed W)) :
    (arcs.foldl Tallies.add (start count)).Counts count arcs := by
  -- An arc is counted after those before it, so this takes arcs off the end.
  induction arcs using List.reverseRecOn with
  | nil => exact counts_start count
  | append_singleton arcs arc ih =>
    rw [List.foldl_concat]
    exact ih.add arc

/-- The summands of modularity, slot by slot. -/
def summands (t : Tallies W) (total : W) : List W :=
  List.zipWith (fun internal expected => internal / total - expected / (total * total)) t.internal
    (List.zipWith (· * ·) t.outgoing t.incoming)

theorem Counts.summands_eq {t : Tallies W} {count : Nat} {arcs : List (Placed W)}
    (h : t.Counts count arcs) (total : W) :
    t.summands total = (List.range count).map fun c =>
      internalWeight arcs c / total - outWeight arcs c * inWeight arcs c / (total * total) := by
  rw [summands, h.internal, h.outgoing, h.incoming, filed_common, filed, filed, List.zipWith_map,
    List.zipWith_self, List.zipWith_map, List.zipWith_self]
  rfl

end Tallies

/-! ### The pass over an adjacency -/

/-- Files every arc when it is met, and divides at the end. -/
def modularityInOnePass (a : Adjacency W) (p : Partition) : W :=
  let total := a.totalWeight
  if Number.isZero total then Number.ofNat 0
  else
    let communities := p.index
    let tallies : Tallies W :=
      a.arcs.foldl (fun t arc => t.add (a.place communities arc)) (.start p.length)
    Number.sum (tallies.summands total)

/-- The pass adds the same weights in the same order, whatever the arithmetic. -/
theorem modularityInOnePass_eq (a : Adjacency W) (p : Partition) :
    a.modularityInOnePass p = a.modularity p := by
  have hpass := Tallies.counts_foldl p.length (a.arcs.map (a.place p.index))
  rw [List.foldl_map] at hpass
  simp only [modularityInOnePass, modularity, hpass.summands_eq]

end CallClusters.Adjacency
