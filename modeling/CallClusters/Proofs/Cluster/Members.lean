import CallClusters.Proofs.Cluster.Build

/-! Building clusters member by member. The names of a partition are looked up one after another,
each community's repetitions passed over, until one is no node. Building in this way does what
`ofPartition` does in two passes, and reports the same. -/

namespace CallClusters

variable {W : Type}

/-- The first listed name that is no node is in the community at `index`: all that are listed
before it, in earlier communities or in this one, are nodes. -/
def Partition.FirstUnknownAt (p : Partition) (g : Graph W) (index : Nat) (name : String) : Prop :=
  ∃ before known rest after, p = before ++ (known ++ name :: rest) :: after ∧
    before.length = index ∧ (∀ m ∈ before, ∀ other ∈ m, other ∈ g.nodes) ∧
    (∀ other ∈ known, other ∈ g.nodes) ∧ name ∉ g.nodes

theorem Partition.FirstUnknownAt.lt {g : Graph W} {p : Partition} {index : Nat} {name : String}
    (h : p.FirstUnknownAt g index name) : index < p.length := by
  obtain ⟨before, known, rest, after, rfl, rfl, -⟩ := h
  rw [List.length_append, List.length_cons]
  omega

theorem Graph.find?_of_mem {g : Graph W} {name : String} (h : name ∈ g.nodes) :
    g.find? name = some name := by
  have hsome : (g.nodes.find? (· == name)).isSome = true :=
    List.find?_isSome.2 ⟨name, h, beq_self_eq_true name⟩
  obtain ⟨node, hnode⟩ := Option.isSome_iff_exists.1 hsome
  have heq := List.find?_some hnode
  rw [find?, hnode, beq_iff_eq.1 heq]

theorem Graph.find?_of_not_mem {g : Graph W} {name : String} (h : name ∉ g.nodes) :
    g.find? name = none := by
  rw [find?, List.find?_eq_none]
  intro other hother heq
  exact h (beq_iff_eq.1 heq ▸ hother)

namespace Clustering

/-! ### Looking up one by one -/

/-- Looks up the names of a community, of which `met` are the nodes found so far. A name that was met
is passed over, and the first one that is no node stops the lookup. -/
def resolve (g : Graph W) (id : UInt32) (met : List String) : List String → Traced W (List String)
  | [] => return met
  | name :: rest =>
    if met.contains name then resolve g id met rest
    else match g.find? name with
      | some node => resolve g id (met ++ [node]) rest
      | none => do
        Traced.emit (.nodeNotFound name)
        Traced.fail (.unknownMember id name)

/-- The clusters of communities, which are counted from `index`. -/
def resolveAll (g : Graph W) (index : Nat) : Partition → Traced W (List (Cluster W))
  | [] => return []
  | community :: rest => do
    let id := UInt32.ofNat (index + 1)
    let nodes ← resolve g id [] community
    let clusters ← resolveAll g (index + 1) rest
    return ⟨id, nodes, g.edgesWithin nodes⟩ :: clusters

def ofMembers (g : Graph W) (p : Partition) : Traced W (Clustering W) := do
  Traced.emit (.stageStarted .adapt)
  let clusters ← resolveAll g 0 p
  Traced.emit (.stageFinished .adapt)
  return ⟨clusters, []⟩

variable {g : Graph W} {p : Partition} {name : String}

/-- Past names that are nodes, what was met is those names without repetition. -/
theorem resolve_append {id : UInt32} {met known : List String} (hmet : met.Nodup)
    (hknown : ∀ other ∈ known, other ∈ g.nodes) (rest : List String) :
    resolve g id met (known ++ rest) = resolve g id (met ++ known).eraseDups rest := by
  induction known generalizing met with
  | nil => rw [List.append_nil, eraseDups_eq_self hmet, List.nil_append]
  | cons name known ih =>
    obtain ⟨hname, hknown⟩ := List.forall_mem_cons.1 hknown
    rw [List.cons_append, resolve]
    by_cases hin : name ∈ met
    · rw [if_pos (List.contains_iff_mem.2 hin), ih hmet hknown, eraseDups_append_cons_of_mem hin]
    · have hnext : (met ++ [name]).Nodup := by
        rw [List.nodup_append_comm]
        exact List.nodup_cons.2 ⟨hin, hmet⟩
      rw [if_neg (mt List.contains_iff_mem.1 hin), Graph.find?_of_mem hname]
      change resolve g id (met ++ [name]) (known ++ rest) = _
      rw [ih hnext hknown, List.append_assoc, List.singleton_append]

theorem resolve_of_nodes {id : UInt32} {names : List String}
    (h : ∀ name ∈ names, name ∈ g.nodes) : resolve g id [] names = ⟨[], .ok names.eraseDups⟩ := by
  rw [← List.append_nil names, resolve_append List.nodup_nil h, List.nil_append, List.append_nil]
  rfl

theorem resolve_of_unknown {id : UInt32} {known : List String}
    (hknown : ∀ other ∈ known, other ∈ g.nodes) (hname : name ∉ g.nodes) (rest : List String) :
    resolve g id [] (known ++ name :: rest) =
      ⟨[.nodeNotFound name], .error (.unknownMember id name)⟩ := by
  have hunmet : name ∉ known.eraseDups := fun h => hname (hknown name (List.mem_eraseDups.1 h))
  rw [resolve_append List.nodup_nil hknown, List.nil_append, resolve,
    if_neg (mt List.contains_iff_mem.1 hunmet), Graph.find?_of_not_mem hname]
  rfl

theorem resolveAll_of_within (h : p.Within g) (index : Nat) :
    resolveAll g index p =
      ⟨[], .ok (p.mapIdx fun i => clusterOfCommunity g (index + i))⟩ := by
  induction p generalizing index with
  | nil => rfl
  | cons m p ih =>
    obtain ⟨hm, hp⟩ := List.forall_mem_cons.1 h
    have hplaces : (fun i => clusterOfCommunity g (index + 1 + i)) =
        fun i => clusterOfCommunity g (index + (i + 1)) := by
      funext i
      rw [show index + 1 + i = index + (i + 1) by omega]
    rw [resolveAll]
    simp only [resolve_of_nodes hm, ih hp, Traced.ok_bind, hplaces, List.mapIdx_cons]
    rfl

/-- The lookup gets through the communities before the unknown name, and no further. -/
theorem resolveAll_of_firstUnknownAt {index : Nat} (h : p.FirstUnknownAt g index name)
    (start : Nat) :
    resolveAll g start p = ⟨[.nodeNotFound name],
      .error (.unknownMember (UInt32.ofNat (start + index + 1)) name)⟩ := by
  obtain ⟨before, known, rest, after, rfl, rfl, hbefore, hknown, hname⟩ := h
  induction before generalizing start with
  | nil =>
    rw [List.nil_append, resolveAll, resolve_of_unknown hknown hname]
    rfl
  | cons m before ih =>
    obtain ⟨hm, hbefore⟩ := List.forall_mem_cons.1 hbefore
    rw [List.cons_append, resolveAll, resolve_of_nodes hm]
    simp only [Traced.ok_bind, ih (start + 1) hbefore, List.length_cons]
    rw [show start + 1 + before.length + 1 = start + (before.length + 1) + 1 by omega]
    rfl

theorem ofMembers_of_within (h : p.Within g) :
    ofMembers g p = ⟨[.stageStarted .adapt, .stageFinished .adapt], .ok (ofCommunities g p)⟩ := by
  rw [ofMembers, resolveAll_of_within h]
  simp only [Nat.zero_add]
  rfl

theorem ofMembers_of_firstUnknownAt {index : Nat} (h : p.FirstUnknownAt g index name) :
    ofMembers g p = ⟨[.stageStarted .adapt, .nodeNotFound name],
      .error (.unknownMember (UInt32.ofNat (index + 1)) name)⟩ := by
  rw [ofMembers, resolveAll_of_firstUnknownAt h, Nat.zero_add]
  rfl

/-! ### The two passes -/

theorem firstUnknownAt_of_firstUnknown {start index : Nat}
    (h : firstUnknown g start p = some (index, name)) :
    ∃ i, index = start + i ∧ p.FirstUnknownAt g i name := by
  induction p generalizing start with
  | nil => cases h
  | cons m p ih =>
    rw [firstUnknown] at h
    cases hfind : m.find? fun name => !g.contains name with
    | some found =>
      rw [hfind] at h
      cases h
      obtain ⟨hname, known, rest, rfl, hknown⟩ := List.find?_eq_some_iff_append.1 hfind
      refine ⟨0, rfl, [], known, rest, p, rfl, rfl, by simp, fun other hother => ?_, ?_⟩
      · simpa [Graph.contains] using hknown other hother
      · simpa [Graph.contains] using hname
    | none =>
      rw [hfind] at h
      obtain ⟨i, rfl, before, known, rest, after, rfl, rfl, hbefore, hunknown⟩ := ih h
      have hm : ∀ name ∈ m, name ∈ g.nodes := by
        simpa [Graph.contains] using List.find?_eq_none.1 hfind
      exact ⟨before.length + 1, by omega, m :: before, known, rest, after, rfl, rfl,
        List.forall_mem_cons.2 ⟨hm, hbefore⟩, hunknown⟩

theorem exists_firstUnknownAt (h : ¬ p.Within g) :
    ∃ index name, firstUnknown g 0 p = some (index, name) ∧ p.FirstUnknownAt g index name := by
  obtain ⟨⟨index, name⟩, hfirst⟩ :=
    Option.ne_none_iff_exists'.1 (mt (firstUnknown_eq_none_iff g p 0).1 h)
  obtain ⟨i, rfl, hunknown⟩ := firstUnknownAt_of_firstUnknown hfirst
  rw [Nat.zero_add] at hfirst
  exact ⟨i, name, hfirst, hunknown⟩

theorem ofPartition_of_firstUnknown {index : Nat}
    (h : firstUnknown g 0 p = some (index, name)) :
    ofPartition g p = ⟨[.stageStarted .adapt, .nodeNotFound name],
      .error (.unknownMember (UInt32.ofNat (index + 1)) name)⟩ := by
  simp only [ofPartition, h]
  rfl

theorem ofPartition_eq_ofMembers (g : Graph W) (p : Partition) : ofPartition g p = ofMembers g p := by
  by_cases h : p.Within g
  · rw [ofPartition_of_within h, ofMembers_of_within h]
  · obtain ⟨index, name, hfirst, hunknown⟩ := exists_firstUnknownAt h
    rw [ofPartition_of_firstUnknown hfirst, ofMembers_of_firstUnknownAt hunknown]

/-- The clusters are built exactly when all listed names are nodes. They count the communities from
one, keep their members in the order in which they first come, and have the edges with both ends
among their members. The first listed name that is no node is otherwise the one that is reported. -/
theorem ofPartition_resolves_members {p : Partition} (hcount : p.length < wordBound32)
    (g : Graph W) :
    ((∃ c, (ofPartition g p).result = .ok c) ↔ ∀ m ∈ p, ∀ name ∈ m, name ∈ g.nodes) ∧
    (∀ c, (ofPartition g p).result = .ok c →
      (ofPartition g p).events = [.stageStarted .adapt, .stageFinished .adapt] ∧
      c.interEdges = [] ∧ c.clusters.length = p.length ∧
      ∀ (i : Nat) (m : List String), p[i]? = some m → ∃ k, c.clusters[i]? = some k ∧
        k.id.toNat = i + 1 ∧ (∀ name, name ∈ k.nodes ↔ name ∈ m) ∧
        (k.nodes.Pairwise fun a b => m.idxOf a < m.idxOf b) ∧
        k.intraEdges = g.edges.filter fun e => decide (e.source ∈ k.nodes ∧ e.target ∈ k.nodes)) ∧
    (∀ fault, (ofPartition g p).result = .error fault →
      ∃ index name id, p.FirstUnknownAt g index name ∧ id.toNat = index + 1 ∧
        fault = .unknownMember id name ∧
        (ofPartition g p).events = [.stageStarted .adapt, .nodeNotFound name]) ∧
    ofPartition g p = ofMembers g p := by
  refine ⟨?_, fun c hc => ?_, fun fault hfault => ?_, ofPartition_eq_ofMembers g p⟩
  · simp only [ofPartition_result_eq_ok, exists_and_left, exists_eq, and_true, Partition.Within]
  · obtain ⟨hwithin, rfl⟩ := ofPartition_result_eq_ok.1 hc
    rw [ofPartition_of_within hwithin]
    refine ⟨rfl, rfl, List.length_mapIdx, fun i m hm => ⟨clusterOfCommunity g i m, ?_, ?_, ?_, ?_, ?_⟩⟩
    · rw [ofCommunities, List.getElem?_mapIdx, hm, Option.map_some]
    · exact toNat_id (List.getElem?_eq_some_iff.1 hm).1 hcount
    · exact fun name => List.mem_eraseDups
    · exact pairwise_idxOf_eraseDups m
    · apply List.filter_congr
      intro e _
      simp [clusterOfCommunity, List.contains_eq_mem]
  · have h : ¬ p.Within g := by
      intro hwithin
      rw [ofPartition_of_within hwithin] at hfault
      cases hfault
    obtain ⟨index, name, hfirst, hunknown⟩ := exists_firstUnknownAt h
    rw [ofPartition_of_firstUnknown hfirst] at hfault ⊢
    cases hfault
    exact ⟨index, name, _, hunknown, toNat_id hunknown.lt hcount, rfl, rfl⟩

/-- The third community is the first to list a name that is no node, after one that is. -/
theorem ofPartition_resolves_members_stray :
    let g : Graph Rat := ⟨["A", "B", "C"], [⟨"C", "A", .blank, .blank, 1⟩]⟩
    let p : Partition := [["B", "A", "B"], [], ["C", "Z", "C", "Y"], ["X"]]
    p.length < wordBound32 ∧
      ofPartition g p =
        ⟨[.stageStarted .adapt, .nodeNotFound "Z"], .error (.unknownMember 3 "Z")⟩ ∧
      p.FirstUnknownAt g 2 "Z" := by
  intro g p
  have hcount : p.length < wordBound32 := by decide
  have hrun : ofPartition g p =
      ⟨[.stageStarted .adapt, .nodeNotFound "Z"], .error (.unknownMember 3 "Z")⟩ := rfl
  obtain ⟨-, -, hfails, -⟩ := ofPartition_resolves_members hcount g
  obtain ⟨index, name, id, hunknown, hid, hfault, -⟩ := hfails _ (congrArg Traced.result hrun)
  cases hfault
  have hindex : index = 2 := by
    have h : (3 : UInt32).toNat = 3 := rfl
    omega
  exact ⟨hcount, hrun, hindex ▸ hunknown⟩

end Clustering

end CallClusters
