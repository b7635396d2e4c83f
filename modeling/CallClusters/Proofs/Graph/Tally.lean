import CallClusters.Proofs.Graph.Adjacency
import CallClusters.Proofs.Graph.Degree

/-! Degrees as a tally with a slot for every distinct name, beside the adjacency of the same graph. Each
edge is counted in a slot at every end that is a node; it has an arc if both ends are nodes, and else it
is reported as skipped. So the arcs and the reports account for all degrees, and the untouched names
are those with no degree at all. -/

namespace CallClusters

variable {W : Type}

/-! ### Ends of edges, arcs and reports -/

def Edge.nameAt (role : Role) (e : Edge W) : String :=
  match role with
  | .source => e.source
  | .target => e.target

def Arc.slotAt (role : Role) (arc : Arc W) : Nat :=
  match role with
  | .source => arc.source
  | .target => arc.target

/-- The name that a report on a skipped edge gives for one of its ends. -/
def Event.skippedAt (role : Role) : Event W → Option String
  | .edgeSkipped source target _ =>
    match role with
    | .source => some source
    | .target => some target
  | _ => none

namespace Graph

variable {g : Graph W}

/-! ### The tally -/

/-- One more for the name's slot; a name without a slot is not counted. -/
def countUp (names : List String) (counts : List Nat) (name : String) : List Nat :=
  match names.idxOf? name with
  | some slot => counts.modify slot (· + 1)
  | none => counts

/-- One pass over the edges that counts an end of each. -/
def tally (g : Graph W) (endpoint : Edge W → String) : List Nat :=
  g.edges.foldl (fun counts e => countUp g.names counts (endpoint e)) (List.replicate g.names.length 0)

@[simp] theorem length_degrees (g : Graph W) (endpoint : Edge W → String) :
    (g.degrees endpoint).length = g.names.length := List.length_map _

theorem getElem?_degrees {i : Nat} {name : String} (h : g.names[i]? = some name)
    (endpoint : Edge W → String) :
    (g.degrees endpoint)[i]? = some (g.edges.countP fun e => endpoint e == name) := by
  rw [degrees, List.getElem?_map, h, Option.map_some]

/-- Distinct names stand in different slots. -/
theorem slot_eq_iff {i j : Nat} {a b : String} (ha : g.names[i]? = some a) (hb : g.names[j]? = some b) :
    i = j ↔ a = b := by
  rw [← List.getElem?_inj (List.getElem?_eq_some_iff.1 ha).1 g.nodup_names, ha, hb, Option.some.injEq]

theorem idxOf?_names_eq_some_iff {i : Nat} {name : String} :
    g.names.idxOf? name = some i ↔ g.names[i]? = some name := by
  constructor
  · intro h
    obtain ⟨hi, hname, -⟩ := List.idxOf?_eq_some_iff.1 h
    exact List.getElem?_eq_some_iff.2 ⟨hi, hname⟩
  · intro h
    obtain ⟨slot, hslot⟩ := Option.isSome_iff_exists.1 (List.isSome_idxOf?.2 (List.mem_of_getElem? h))
    obtain ⟨hlt, hname, -⟩ := List.idxOf?_eq_some_iff.1 hslot
    rw [hslot, (slot_eq_iff (List.getElem?_eq_some_iff.2 ⟨hlt, hname⟩) h).2 rfl]

theorem length_countUp (names : List String) (counts : List Nat) (name : String) :
    (countUp names counts name).length = counts.length := by
  rw [countUp]
  split
  · exact List.length_modify ..
  · rfl

theorem getElem?_countUp {i : Nat} {name : String} (h : g.names[i]? = some name) (counts : List Nat)
    (other : String) :
    (countUp g.names counts other)[i]? = counts[i]?.map (· + if other = name then 1 else 0) := by
  rw [countUp]
  split
  · rename_i slot hslot
    have hsame := slot_eq_iff (idxOf?_names_eq_some_iff.1 hslot) h
    by_cases hslot : slot = i
    · simp [hslot, hsame.1 hslot]
    · simp [hslot, mt hsame.2 hslot]
  · rename_i hnone
    have hne : other ≠ name := by
      rintro rfl
      exact List.idxOf?_eq_none_iff.1 hnone (List.mem_of_getElem? h)
    simp [hne]

/-- One more edge counts up one slot. -/
theorem degrees_concat (g : Graph W) (e : Edge W) (endpoint : Edge W → String) :
    degrees { g with edges := g.edges ++ [e] } endpoint =
      countUp g.names (g.degrees endpoint) (endpoint e) := by
  apply List.ext_getElem?
  intro i
  cases hname : g.names[i]? with
  | none =>
    have hlength := List.getElem?_eq_none_iff.1 hname
    rw [List.getElem?_eq_none, List.getElem?_eq_none]
    · rwa [length_countUp, length_degrees]
    · rwa [length_degrees]
  | some name =>
    have hnew := getElem?_degrees (g := ⟨g.nodes, g.edges ++ [e]⟩) hname endpoint
    rw [hnew, getElem?_countUp hname, getElem?_degrees hname]
    simp [List.countP_append, List.countP_cons]

/-- The pass over the edges counts, in every slot, the edges with that name at the end. -/
theorem tally_eq_degrees (g : Graph W) (endpoint : Edge W → String) :
    g.tally endpoint = g.degrees endpoint := by
  obtain ⟨nodes, edges⟩ := g
  -- The pass counts the last edge last, so this takes edges off the end.
  induction edges using List.reverseRecOn with
  | nil => simp [tally, degrees, names]
  | append_singleton edges e ih =>
    have hstep := degrees_concat ⟨nodes, edges⟩ e endpoint
    rw [← ih] at hstep
    rw [hstep]
    exact List.foldl_concat ..

/-! ### Every edge accounted for -/

/-- An edge between nodes has an arc between their slots, and any other edge has a report. -/
inductive Accounts (g : Graph W) : Edge W → Arc W ⊕ Event W → Prop
  | arc {e : Edge W} {arc : Arc W} (source : g.names[arc.source]? = some e.source)
    (target : g.names[arc.target]? = some e.target) (weight : arc.weight = e.weight) :
    Accounts g e (.inl arc)
  | skipped {e : Edge W} (dangles : e.source ∉ g.nodes ∨ e.target ∉ g.nodes) :
    Accounts g e (.inr (.edgeSkipped e.source e.target "endpoint is not a node of the graph"))

/-- What stands for an edge. -/
def entry (g : Graph W) (e : Edge W) : Arc W ⊕ Event W :=
  match arcOf g.names e with
  | some arc => .inl arc
  | none => .inr (.edgeSkipped e.source e.target "endpoint is not a node of the graph")

theorem accounts_entry (g : Graph W) (e : Edge W) : g.Accounts e (g.entry e) := by
  rw [entry]
  split
  · rename_i arc harc
    obtain ⟨hsource, htarget⟩ := getElem?_of_arcOf harc
    exact .arc hsource htarget (weight_of_arcOf harc)
  · rename_i hnone
    exact .skipped (dangles_eq_true_iff.1 (arcOf_eq_none_iff.1 hnone))

theorem arcs_adjacency_eq (g : Graph W) :
    g.adjacency.arcs = (g.edges.map g.entry).filterMap Sum.getLeft? := by
  rw [List.filterMap_map, adjacency]
  apply List.filterMap_congr
  intro e _
  cases harc : arcOf g.names e with
  | none => simp [entry, harc]
  | some arc => simp [entry, harc]

theorem adjacencyEvents_eq (g : Graph W) :
    g.adjacencyEvents = (g.edges.map g.entry).filterMap Sum.getRight? := by
  rw [List.filterMap_map, adjacencyEvents, ← List.filterMap_eq_map, List.filterMap_filter]
  apply List.filterMap_congr
  intro e _
  cases harc : arcOf g.names e with
  | none => simp [entry, harc, arcOf_eq_none_iff.1 harc]
  | some arc => simp [entry, harc, dangles_of_arcOf harc]

theorem Accounts.nameAt_beq {e : Edge W} {arc : Arc W} (h : g.Accounts e (.inl arc)) {i : Nat}
    {name : String} (hname : g.names[i]? = some name) (role : Role) :
    (e.nameAt role == name) = (arc.slotAt role == i) := by
  rw [Bool.eq_iff_iff, beq_iff_eq, beq_iff_eq]
  cases h with
  | arc source target weight =>
    cases role with
    | source => exact (slot_eq_iff source hname).symm
    | target => exact (slot_eq_iff target hname).symm

theorem Accounts.skippedAt_eq {e : Edge W} {event : Event W} (h : g.Accounts e (.inr event))
    (role : Role) : event.skippedAt role = some (e.nameAt role) := by
  cases h
  cases role <;> rfl

/-- In each slot, the edges that end there are those whose arc does and those that are skipped with the
slot's name at this end. -/
theorem countP_of_accounts {i : Nat} {name : String} (hname : g.names[i]? = some name) (role : Role)
    {edges : List (Edge W)} {entries : List (Arc W ⊕ Event W)}
    (h : List.Forall₂ g.Accounts edges entries) :
    (edges.countP fun e => e.nameAt role == name) =
      ((entries.filterMap Sum.getLeft?).countP fun arc => arc.slotAt role == i) +
      ((entries.filterMap Sum.getRight?).countP fun event => event.skippedAt role == some name) := by
  induction h with
  | nil => rfl
  | @cons e entry _ _ haccounts _ ih =>
    cases entry with
    | inl arc =>
      have hend := haccounts.nameAt_beq hname role
      simp only [List.countP_cons, List.filterMap_cons, Sum.getLeft?_inl, Sum.getRight?_inl, ih, hend]
      omega
    | inr event =>
      have hend := haccounts.skippedAt_eq role
      simp only [List.countP_cons, List.filterMap_cons, Sum.getLeft?_inr, Sum.getRight?_inr, ih, hend]
      simp only [beq_iff_eq, Option.some.injEq]
      omega

/-! ### Names at no end of an edge -/

theorem not_mem_touched_iff {i : Nat} {name : String} (h : g.names[i]? = some name) :
    name ∉ g.touched ↔ g.inDegrees[i]? = some 0 ∧ g.outDegrees[i]? = some 0 := by
  rw [inDegrees, outDegrees, getElem?_degrees h, getElem?_degrees h, mem_touched]
  simp only [Option.some.injEq, List.countP_eq_zero, beq_iff_eq]
  constructor
  · intro hno
    exact ⟨fun e he htarget => hno ⟨e, he, .inr htarget⟩, fun e he hsource => hno ⟨e, he, .inl hsource⟩⟩
  · rintro ⟨hin, hout⟩ ⟨e, he, hsource | htarget⟩
    · exact hout e he hsource
    · exact hin e he htarget

/-- Where names are distinct, the isolated nodes are the slots without degrees. -/
theorem isolatedCount_eq_count (h : g.nodes.Nodup) :
    g.isolatedCount = (g.inDegrees.zip g.outDegrees).count (0, 0) := by
  have hnames : g.names = g.nodes := eraseDups_eq_self h
  rw [isolatedCount_eq, ← hnames, inDegrees, outDegrees, degrees, degrees, List.zip_map', List.count,
    List.countP_map]
  apply List.countP_congr
  intro name hname
  obtain ⟨i, hi⟩ := List.mem_iff_getElem?.1 hname
  have huntouched := not_mem_touched_iff hi
  rw [inDegrees, outDegrees, getElem?_degrees hi, getElem?_degrees hi] at huntouched
  simpa using huntouched

/-! ### Tally and adjacency -/

/-- The slots of the tally are the nodes of the adjacency. What is counted in a slot is the arcs there and
the skipped edges with its name, and arcs and skipped edges are all edges in their order. A name at no
end of an edge is one whose slots are empty. -/
theorem degrees_agree_with_adjacency (g : Graph W) :
    (g.adjacency.names.Nodup ∧ (∀ name, name ∈ g.adjacency.names ↔ name ∈ g.nodes) ∧
      g.adjacency.names.Pairwise fun a b => g.nodes.idxOf a < g.nodes.idxOf b) ∧
    (g.inDegrees.length = g.adjacency.names.length ∧ g.outDegrees.length = g.adjacency.names.length ∧
      g.inDegrees = g.tally Edge.target ∧ g.outDegrees = g.tally Edge.source) ∧
    (∃ entries : List (Arc W ⊕ Event W), List.Forall₂ g.Accounts g.edges entries ∧
      g.adjacency.arcs = entries.filterMap Sum.getLeft? ∧
      g.adjacencyEvents = entries.filterMap Sum.getRight?) ∧
    (∀ i name, g.adjacency.names[i]? = some name →
      g.inDegrees[i]? = some ((g.adjacency.arcs.countP fun arc => arc.target == i) +
        g.adjacencyEvents.countP fun event => event.skippedAt .target == some name) ∧
      g.outDegrees[i]? = some ((g.adjacency.arcs.countP fun arc => arc.source == i) +
        g.adjacencyEvents.countP fun event => event.skippedAt .source == some name) ∧
      (name ∉ g.touched ↔ g.inDegrees[i]? = some 0 ∧ g.outDegrees[i]? = some 0)) ∧
    (g.nodes.Nodup → g.isolatedCount = (g.inDegrees.zip g.outDegrees).count (0, 0)) := by
  have hentries : List.Forall₂ g.Accounts g.edges (g.edges.map g.entry) := by
    rw [List.forall₂_map_right_iff, List.forall₂_same]
    exact fun e _ => g.accounts_entry e
  refine ⟨⟨g.nodup_names, fun _ => mem_names, pairwise_idxOf_eraseDups g.nodes⟩,
    ⟨g.length_degrees _, g.length_degrees _, (g.tally_eq_degrees _).symm, (g.tally_eq_degrees _).symm⟩,
    ⟨_, hentries, g.arcs_adjacency_eq, g.adjacencyEvents_eq⟩, fun i name hname => ⟨?_, ?_, ?_⟩,
    isolatedCount_eq_count⟩
  · rw [inDegrees, getElem?_degrees hname, g.arcs_adjacency_eq, g.adjacencyEvents_eq]
    exact congrArg some (countP_of_accounts hname .target hentries)
  · rw [outDegrees, getElem?_degrees hname, g.arcs_adjacency_eq, g.adjacencyEvents_eq]
    exact congrArg some (countP_of_accounts hname .source hentries)
  · exact not_mem_touched_iff hname

/-- Two edges dangle, of which one has its target counted, and no edge touches the last node. -/
theorem degrees_agree_with_adjacency_ghost :
    let call (s t : String) : Edge Rat := ⟨s, t, .blank, .blank, 1⟩
    let g : Graph Rat := ⟨["A", "B", "A", "C"],
      [call "A" "B", call "Ghost" "A", call "B" "Ghost", call "B" "B"]⟩
    g.adjacency.names[0]? = some "A" ∧ g.inDegrees[0]? = some 1 ∧
      (g.adjacency.arcs.countP fun arc => arc.target == 0) = 0 ∧
      (g.adjacencyEvents.countP fun event => event.skippedAt .target == some "A") = 1 ∧
      g.adjacency.names[2]? = some "C" ∧ "C" ∉ g.touched := by
  intro call g
  obtain ⟨-, -, -, hslots, -⟩ := degrees_agree_with_adjacency g
  have hfirst : g.adjacency.names[0]? = some "A" := by decide
  have hlast : g.adjacency.names[2]? = some "C" := by decide
  refine ⟨hfirst, (hslots 0 "A" hfirst).1, by decide, by decide, hlast, ?_⟩
  exact (hslots 2 "C" hlast).2.2.2 (by decide)

end Graph

end CallClusters
