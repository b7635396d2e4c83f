import CallClusters.Page.Network
import CallClusters.Proofs.Distinct

/-! What a page draws of a clustering: every name that some cluster lists, once, and in the colour
of the first cluster that lists it. -/

namespace CallClusters

namespace Color

theorem ofHue_eq (hue : Float) : ∃ r g b, ofHue hue = rgba r g b := by
  simp only [ofHue]
  split <;> exact ⟨_, _, _, rfl⟩

theorem isDigit_of_mem_byte {x : Float} {d : Char} (hd : d ∈ (byte x).toList) : d.isDigit := by
  rw [byte, Nat.toString_eq_repr, Nat.toList_repr] at hd
  exact Nat.isDigit_of_mem_toDigits (by decide) (by decide) hd

end Color

namespace Clustering

variable {W : Type} {palette : List (UInt32 × String)} {drawn : List String}
  {clusters : List (Cluster W)}

/-- What is drawn of the clusters when some names have been drawn before. -/
theorem mem_networkNodes {n : Network.Node} :
    n ∈ networkNodes palette drawn clusters ↔
      n.name ∉ drawn ∧ ∃ k, clusters.find? (·.contains n.name) = some k ∧
        n.color = colorOf palette k.id := by
  induction clusters generalizing drawn with
  | nil => simp [networkNodes]
  | cons k rest ih =>
    have hfresh : n ∈ ((k.nodes.eraseDups.filter fun name => !drawn.contains name).map fun name =>
        (⟨name, colorOf palette k.id⟩ : Network.Node)) ↔
          (n.name ∈ k.nodes ∧ n.name ∉ drawn) ∧ n.color = colorOf palette k.id := by
      obtain ⟨name, color⟩ := n
      simp only [List.mem_map, List.mem_filter, List.mem_eraseDups, Network.Node.mk.injEq]
      constructor
      · rintro ⟨_, h, rfl, rfl⟩
        simpa using h
      · rintro ⟨h, rfl⟩
        exact ⟨name, by simpa using h, rfl, rfl⟩
    rw [networkNodes, List.mem_append, hfresh, ih, List.find?_cons]
    -- Whether the first cluster lists the name decides which side can hold.
    by_cases hk : n.name ∈ k.nodes
    · have hcontains : k.contains n.name = true := by simpa [Cluster.contains] using hk
      simp [hcontains, hk]
    · have hcontains : k.contains n.name = false := by simpa [Cluster.contains] using hk
      simp [hcontains, hk]

theorem nodup_networkNodes :
    ((networkNodes palette drawn clusters).map Network.Node.name).Nodup := by
  induction clusters generalizing drawn with
  | nil => exact .nil
  | cons k rest ih =>
    rw [networkNodes, List.map_append, List.nodup_append]
    refine ⟨?_, ih, ?_⟩
    · rw [List.map_map]
      exact (List.map_id _).symm ▸ (nodup_eraseDups k.nodes).filter _
    · rintro name hfresh _ hlater rfl
      obtain ⟨n, hn, rfl⟩ := List.mem_map.1 hlater
      have hnew := (mem_networkNodes.1 hn).1
      simp only [List.map_map, List.mem_map, Function.comp_apply] at hfresh
      obtain ⟨_, hmem, rfl⟩ := hfresh
      exact hnew (List.mem_append_right _ hmem)

variable {c : Clustering W} {blackSingles : Bool}

/-- A cluster is drawn in black or in a full colour. -/
theorem colorOf_palette (c : Clustering W) (blackSingles : Bool) (id : UInt32) :
    colorOf (c.palette blackSingles) id = Color.plain ∨
      ∃ r g b, colorOf (c.palette blackSingles) id = Color.rgba r g b := by
  rw [colorOf]
  cases hlookup : (c.palette blackSingles).reverse.lookup id with
  | none => exact .inl rfl
  | some color =>
    obtain ⟨front, behind, hentries, -⟩ := List.lookup_eq_some_iff.1 hlookup
    have hmem : (id, color) ∈ c.palette blackSingles := by
      rw [← List.mem_reverse, hentries]
      simp
    rw [Clustering.palette, List.mem_mapIdx] at hmem
    obtain ⟨i, hi, heq⟩ := hmem
    rw [Option.getD_some, ← (Prod.mk.inj heq).2]
    split
    · exact .inl rfl
    · exact .inr (Color.ofHue_eq _)

/-- A name is drawn in the colour of its cluster. -/
theorem mem_nodes_network {n : Network.Node} :
    n ∈ (c.network blackSingles).nodes ↔
      ∃ k, c.clusterOf n.name = some k ∧ n.color = colorOf (c.palette blackSingles) k.id := by
  rw [network, mem_networkNodes]
  simp [clusterOf]

theorem nodup_names_network : ((c.network blackSingles).nodes.map Network.Node.name).Nodup :=
  nodup_networkNodes

/-- The names that are drawn are those that the clusters list. -/
theorem names_network_perm :
    ((c.network blackSingles).nodes.map Network.Node.name).Perm
      (c.clusters.flatMap Cluster.nodes).eraseDups := by
  rw [List.perm_ext_iff_of_nodup nodup_names_network (nodup_eraseDups _)]
  intro name
  simp only [List.mem_map, mem_nodes_network, List.mem_eraseDups, List.mem_flatMap]
  constructor
  · rintro ⟨n, ⟨k, hk, -⟩, rfl⟩
    exact ⟨k, List.mem_of_find?_eq_some hk, by simpa [Cluster.contains] using List.find?_some hk⟩
  · rintro ⟨k, hk, hname⟩
    have hfound : (c.clusterOf name).isSome := by
      rw [clusterOf, List.find?_isSome]
      exact ⟨k, hk, by simpa [Cluster.contains] using hname⟩
    obtain ⟨first, hfirst⟩ := Option.isSome_iff_exists.1 hfound
    exact ⟨⟨name, _⟩, ⟨first, hfirst, rfl⟩, rfl⟩

end Clustering

end CallClusters
