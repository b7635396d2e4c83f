import CallClusters.Proofs.Partition.Separation
import CallClusters.Proofs.Traced

/-! The choice of a level. The scan keeps a level when it beats all before it, and so it ends with the
first one of the highest modularity, if that is above the zero it starts with. Zero is what all nodes
score as one community. -/

namespace CallClusters

namespace Adjacency

variable {a : Adjacency Rat} {levels rest : List Partition} {first level : Partition} {k : Nat}

/-! ### The first of the best -/

/-- The level has the highest modularity, which none of the `k` levels before it has. -/
structure IsFirstBest (a : Adjacency Rat) (levels : List Partition) (k : Nat) (level : Partition) :
    Prop where
  listed : levels[k]? = some level
  highest : ∀ other ∈ levels, a.modularity other ≤ a.modularity level
  first : ∀ other ∈ levels.take k, a.modularity other < a.modularity level

namespace IsFirstBest

theorem head (h : ∀ other ∈ rest, a.modularity other ≤ a.modularity level) :
    a.IsFirstBest (level :: rest) 0 level where
  listed := rfl
  highest := List.forall_mem_cons.2 ⟨le_rfl, h⟩
  first := by simp

theorem cons (h : a.IsFirstBest rest k level) (hlt : a.modularity first < a.modularity level) :
    a.IsFirstBest (first :: rest) (k + 1) level where
  listed := h.listed
  highest := List.forall_mem_cons.2 ⟨hlt.le, h.highest⟩
  first := List.forall_mem_cons.2 ⟨hlt, h.first⟩

theorem mem (h : a.IsFirstBest levels k level) : level ∈ levels := List.mem_of_getElem? h.listed

/-- No level after it does better, and none before it does as well. -/
theorem unique {k' : Nat} {level' : Partition} (h : a.IsFirstBest levels k level)
    (h' : a.IsFirstBest levels k' level') : k = k' ∧ level = level' := by
  have hle {i j : Nat} {x y : Partition} (hx : a.IsFirstBest levels i x)
      (hy : a.IsFirstBest levels j y) : i ≤ j := by
    by_contra hlt
    have htake : (levels.take i)[j]? = some y := by
      rw [List.getElem?_take_of_lt (by omega), hy.listed]
    exact (hx.first y (List.mem_of_getElem? htake)).not_ge (hy.highest x hx.mem)
  obtain rfl := Nat.le_antisymm (hle h h') (hle h' h)
  exact ⟨rfl, Option.some.inj (h.listed.symm.trans h'.listed)⟩

end IsFirstBest

/-! ### The scan -/

/-- One step: a level is kept when it beats the best score so far. -/
theorem climb_scoreLevels_cons (best : Rat) (number : Nat) (kept : Option (Nat × Partition)) :
    climb best kept (a.scoreLevels number (first :: rest)) =
      if best < a.modularity first then
        climb (a.modularity first) (some (number, first)) (a.scoreLevels (number + 1) rest)
      else climb best kept (a.scoreLevels (number + 1) rest) := by
  have hless : Number.less best (a.modularity first) = decide (best < a.modularity first) := rfl
  rw [scoreLevels, climb, hless]
  simp only [decide_eq_true_eq]

/-- A scan that starts below some level ends with the first of the best ones. Otherwise nothing
changes what was kept before. -/
theorem climb_scoreLevels (best : Rat) (number : Nat) (kept : Option (Nat × Partition))
    (levels : List Partition) :
    (∀ level ∈ levels, a.modularity level ≤ best) ∧
        climb best kept (a.scoreLevels number levels) = kept ∨
      ∃ k level, best < a.modularity level ∧ a.IsFirstBest levels k level ∧
        climb best kept (a.scoreLevels number levels) = some (number + k, level) := by
  induction levels generalizing best number kept with
  | nil => exact .inl ⟨by simp, rfl⟩
  | cons first rest ih =>
    rw [climb_scoreLevels_cons]
    by_cases hless : best < a.modularity first
    -- The level is kept, and those after it are measured by its score.
    · rw [if_pos hless]
      rcases ih (a.modularity first) (number + 1) (some (number, first)) with
        ⟨hrest, hclimb⟩ | ⟨k, level, hlt, hbest, hclimb⟩
      · exact .inr ⟨0, first, hless, .head hrest, hclimb⟩
      · refine .inr ⟨k + 1, level, hless.trans hlt, hbest.cons hlt, ?_⟩
        rw [hclimb, show number + 1 + k = number + (k + 1) by omega]
    -- The level is passed over; whatever beats the best score so far beats it too.
    · rw [if_neg hless]
      have hle := le_of_not_gt hless
      rcases ih best (number + 1) kept with ⟨hrest, hclimb⟩ | ⟨k, level, hlt, hbest, hclimb⟩
      · exact .inl ⟨List.forall_mem_cons.2 ⟨hle, hrest⟩, hclimb⟩
      · refine .inr ⟨k + 1, level, hlt, hbest.cons (hle.trans_lt hlt), ?_⟩
        rw [hclimb, show number + 1 + k = number + (k + 1) by omega]

/-! ### Reports and result -/

/-- The reports on the levels, which are counted from one. -/
def levelEvents (a : Adjacency Rat) (levels : List Partition) : List (Event Rat) :=
  levels.mapIdx fun i level => .levelModularity (i + 1) (a.modularity level)

theorem mem_levelEvents {event : Event Rat} :
    event ∈ a.levelEvents levels ↔
      ∃ (i : Nat) (hi : i < levels.length),
        .levelModularity (i + 1) (a.modularity levels[i]) = event := List.mem_mapIdx

theorem map_scoreLevels (number : Nat) (levels : List Partition) :
    ((a.scoreLevels number levels).map fun (number, score, _) =>
        (Event.levelModularity number score : Event Rat)) =
      levels.mapIdx fun i level => .levelModularity (i + number) (a.modularity level) := by
  induction levels generalizing number with
  | nil => rfl
  | cons level levels ih =>
    rw [scoreLevels, List.map_cons, ih, List.mapIdx_cons, Nat.zero_add]
    simp only [Nat.add_assoc, Nat.add_comm 1]

theorem selectLevel_nil : a.selectLevel [] = ⟨[], .error .noLevels⟩ := rfl

/-- What a choice among levels comes to: there is none that beats zero, or the first of the best. -/
theorem selectLevel_cases (hne : levels ≠ []) :
    (∀ level ∈ levels, a.modularity level ≤ 0) ∧
        a.selectLevel levels =
          ⟨a.levelEvents levels ++ [.noImprovingLevel], .ok (levels.getLast hne)⟩ ∨
      ∃ k level, 0 < a.modularity level ∧ a.IsFirstBest levels k level ∧
        a.selectLevel levels = ⟨a.levelEvents levels ++ [.levelSelected (k + 1)], .ok level⟩ := by
  have hevents := map_scoreLevels (a := a) 1 levels
  rcases climb_scoreLevels (a := a) (Number.ofNat 0) 1 none levels with
    ⟨hnone, hclimb⟩ | ⟨k, level, hlt, hbest, hclimb⟩
  · refine .inl ⟨hnone, ?_⟩
    rw [selectLevel, Traced.emitAll_bind, hevents, hclimb, List.getLast?_eq_some_getLast hne]
    rfl
  · refine .inr ⟨k, level, hlt, hbest, ?_⟩
    rw [selectLevel, Traced.emitAll_bind, hevents, hclimb, Nat.add_comm 1 k]
    rfl

/-- Where some level scores above zero, the first of the best levels is chosen, and else the last one.
The reports give every level's score in order, and then which level it is. Without levels there is
nothing to choose and nothing to report. -/
theorem selectLevel_first_best (a : Adjacency Rat) (levels : List Partition) :
    ((∃ level ∈ levels, 0 < a.modularity level) →
      ∃ k level, a.IsFirstBest levels k level ∧
        a.selectLevel levels = ⟨a.levelEvents levels ++ [.levelSelected (k + 1)], .ok level⟩) ∧
    (∀ hne : levels ≠ [], (∀ level ∈ levels, ¬ 0 < a.modularity level) →
      a.selectLevel levels =
        ⟨a.levelEvents levels ++ [.noImprovingLevel], .ok (levels.getLast hne)⟩) ∧
    a.selectLevel [] = ⟨[], .error .noLevels⟩ := by
  refine ⟨fun ⟨level, hlevel, hpos⟩ => ?_, fun hne hnone => ?_, selectLevel_nil⟩
  · rcases selectLevel_cases (a := a) (List.ne_nil_of_mem hlevel) with
      ⟨hnone, -⟩ | ⟨k, best, -, hbest, hrun⟩
    · exact absurd hpos (hnone level hlevel).not_gt
    · exact ⟨k, best, hbest, hrun⟩
  · rcases selectLevel_cases (a := a) hne with ⟨-, hrun⟩ | ⟨k, best, hpos, hbest, -⟩
    · exact hrun
    · exact absurd hpos (hnone best hbest.mem)

/-- A level below zero, a good one, two that are the best on a plateau, and one that comes too late;
and then none but levels below zero. -/
theorem selectLevel_first_best_plateau :
    let a : Adjacency Rat :=
      ⟨["A", "B", "C", "D"], [⟨0, 1, 1⟩, ⟨1, 0, 1⟩, ⟨2, 3, 1⟩, ⟨3, 2, 1⟩], by decide⟩
    let apart : Partition := [["A"], ["B"], ["C"], ["D"]]
    let half : Partition := [["A"], ["B"], ["C", "D"]]
    let pairs : Partition := [["A", "B"], ["C", "D"]]
    let swapped : Partition := [["C", "D"], ["A", "B"]]
    let levels := [apart, half, pairs, swapped, half]
    (∃ level ∈ levels, 0 < a.modularity level) ∧ a.IsFirstBest levels 2 pairs ∧
      a.selectLevel levels = ⟨a.levelEvents levels ++ [.levelSelected 3], .ok pairs⟩ ∧
      (∀ level ∈ [apart, apart.reverse], ¬ 0 < a.modularity level) ∧
      a.selectLevel [apart, apart.reverse] =
        ⟨a.levelEvents [apart, apart.reverse] ++ [.noImprovingLevel], .ok apart.reverse⟩ := by
  intro a apart half pairs swapped levels
  have hbest : a.IsFirstBest levels 2 pairs := ⟨rfl, by decide +kernel, by decide +kernel⟩
  have hpos : ∃ level ∈ levels, 0 < a.modularity level := ⟨pairs, hbest.mem, by decide +kernel⟩
  have hnone : ∀ level ∈ [apart, apart.reverse], ¬ 0 < a.modularity level := by decide +kernel
  obtain ⟨hbetter, -, -⟩ := selectLevel_first_best a levels
  obtain ⟨k, level, hfirst, hrun⟩ := hbetter hpos
  obtain ⟨rfl, rfl⟩ := hfirst.unique hbest
  exact ⟨hpos, hbest, hrun, hnone, (selectLevel_first_best a _).2.1 (by simp) hnone⟩

/-! ### All nodes as one community -/

theorem encloses_everything (a : Adjacency Rat) : a.Encloses a.everything := by
  intro arc harc
  obtain ⟨hsource, htarget⟩ := a.bounded arc harc
  exact ⟨a.names, List.mem_singleton_self _,
    (a.isMember_of_getElem? (List.getElem?_eq_getElem hsource)).2 (List.getElem_mem hsource),
    (a.isMember_of_getElem? (List.getElem?_eq_getElem htarget)).2 (List.getElem_mem htarget)⟩

/-- The whole weight is one share of itself. -/
theorem modularity_everything (a : Adjacency Rat) : a.modularity a.everything = 0 := by
  by_cases htotal : a.totalWeight = 0
  · rw [modularity_eq_sum, if_pos htotal]
  · have hd : a.everything.Pairwise List.Disjoint := List.pairwise_singleton _ _
    have hshare : a.share a.names = 1 := by
      simpa [everything] using sum_share hd a.encloses_everything htotal
    rw [modularity_eq_one_sub hd a.encloses_everything htotal]
    simp [everything, hshare]

end Adjacency

namespace Graph

open Adjacency

/-- A hierarchy of a graph is first measured by all nodes as one community, which always score zero.
This is where the scan starts, so a level is selected exactly when some level beats the undivided
graph. -/
theorem levelSelected_iff_beats_undivided (g : Graph Rat) (levels : List Partition) :
    g.adjacency.modularity g.adjacency.everything = 0 ∧
    ∃ reports,
      ((Partitioner.girvanNewman levels).partition g.adjacency).events =
        .baseModularity 0 :: reports ∧
      (∀ value, .baseModularity value ∉ reports) ∧
      (levels ≠ [] →
        ((∃ number, .levelSelected number ∈ reports) ↔ ∃ level ∈ levels,
          g.adjacency.modularity g.adjacency.everything < g.adjacency.modularity level) ∧
        (.noImprovingLevel ∈ reports ↔ ∀ level ∈ levels,
          ¬ g.adjacency.modularity g.adjacency.everything < g.adjacency.modularity level)) := by
  have hbase := modularity_everything g.adjacency
  refine ⟨hbase, (g.adjacency.selectLevel levels).events, ?_, fun value => ?_, fun hne => ?_⟩
  · rw [Partitioner.partition, Traced.emit_bind, hbase]
  · by_cases hne : levels = []
    · rw [hne, selectLevel_nil]
      exact List.not_mem_nil
    · rcases selectLevel_cases (a := g.adjacency) hne with ⟨-, hrun⟩ | ⟨k, level, -, -, hrun⟩
      · simp [hrun, mem_levelEvents]
      · simp [hrun, mem_levelEvents]
  · rw [hbase]
    rcases selectLevel_cases (a := g.adjacency) hne with
      ⟨hnone, hrun⟩ | ⟨k, level, hpos, hbest, hrun⟩
    · simpa [hrun, mem_levelEvents] using hnone
    · simpa [hrun, mem_levelEvents] using ⟨level, hbest.mem, hpos⟩

/-- Parallel arcs, a negative weight and a loop: the second level beats the undivided graph, which does
not beat itself. -/
theorem levelSelected_iff_beats_undivided_negative :
    let call (s t : String) (w : Rat) : Edge Rat := ⟨s, t, .blank, .blank, w⟩
    let g : Graph Rat := ⟨["A", "B", "C"],
      [call "A" "B" 2, call "A" "B" 2, call "B" "A" (-1), call "C" "C" 3, call "C" "Z" 7]⟩
    let undivided : Partition := [["A", "B", "C"]]
    let pairs : Partition := [["A", "B"], ["C"]]
    let events (levels : List Partition) : List (Event Rat) :=
      ((Partitioner.girvanNewman levels).partition g.adjacency).events
    g.adjacency.everything = undivided ∧ g.adjacency.modularity undivided = 0 ∧
      (∃ number, .levelSelected number ∈ events [undivided, pairs]) ∧
      .noImprovingLevel ∈ events [undivided] := by
  intro call g undivided pairs events
  have heverything : g.adjacency.everything = undivided := by decide
  obtain ⟨hzero, reports, hevents, -, hselected⟩ :=
    levelSelected_iff_beats_undivided g [undivided, pairs]
  obtain ⟨-, reports', hevents', -, hnone⟩ := levelSelected_iff_beats_undivided g [undivided]
  rw [heverything] at hzero hselected hnone
  have hpairs : g.adjacency.modularity undivided < g.adjacency.modularity pairs := by
    decide +kernel
  obtain ⟨number, hnumber⟩ := (hselected (by simp)).1.2 ⟨pairs, by simp, hpairs⟩
  have hstay := (hnone (by simp)).2.2 (by simp)
  refine ⟨heverything, hzero, ⟨number, ?_⟩, ?_⟩
  · simp only [events, hevents]
    exact List.mem_cons_of_mem _ hnumber
  · simp only [events, hevents']
    exact List.mem_cons_of_mem _ hstay

end Graph

end CallClusters
