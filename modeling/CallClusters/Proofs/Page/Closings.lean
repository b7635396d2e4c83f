import CallClusters.Page.Network
import CallClusters.Proofs.Page.Drawing
import CallClusters.Proofs.Text
import Mathlib.Algebra.GroupWithZero.Nat

/-! Where a script on a page can end. The data of a page are JSON, which quotes no angle bracket:
an end tag in a name stands on the page as it stands in the name, once for each time that the name
is written. -/

namespace CallClusters

namespace Text

/-- The text starts with the mark, which is in small letters, in letters of either case. -/
def begins : List Char → List Char → Bool
  | [], _ => true
  | _ :: _, [] => false
  | m :: mark, c :: s => c.toLower == m && begins mark s

theorem begins_cons_of_ne {m c : Char} (h : c.toLower ≠ m) (mark s : List Char) :
    begins (m :: mark) (c :: s) = false := by
  rw [begins, beq_eq_false_iff_ne.2 h, Bool.false_and]

/-- The number of places at which the mark begins. -/
def count (mark : List Char) : List Char → Nat
  | [] => 0
  | c :: s => (begins mark (c :: s)).toNat + count mark s

theorem begins_iff {mark s : List Char} : begins mark s ↔ mark <+: s.map Char.toLower := by
  fun_induction begins mark s with
  | case1 => simp
  | case2 => simp
  | case3 m mark c s ih => simp [ih, List.cons_prefix_cons, @eq_comm _ m]

/-- A text without the mark is one that contains it nowhere. -/
theorem count_eq_zero_iff {mark s : List Char} (hmark : mark ≠ []) :
    count mark s = 0 ↔ ¬ mark <:+: s.map Char.toLower := by
  induction s with
  | nil => simp [count, hmark]
  | cons c s ih =>
    rw [count, Nat.add_eq_zero_iff, ih, List.map_cons, List.infix_cons_iff, not_or,
      ← List.map_cons, ← begins_iff, Bool.toNat_eq_zero, Bool.not_eq_true]

section Cut
variable {mark : List Char} {c : Char}

theorem begins_append_cons (hc : c.toLower ∉ mark) (a s : List Char) :
    begins mark (a ++ c :: s) = begins mark a := by
  induction mark generalizing a with
  | nil => simp [begins]
  | cons m mark ih =>
    obtain ⟨hm, hmark⟩ := not_or.1 (List.mem_cons.not.1 hc)
    cases a with
    | nil => exact begins_cons_of_ne hm _ _
    | cons d a => rw [List.cons_append, begins, begins, ih hmark]

/-- In front of a character that can only be the first of the mark, a text can be cut. -/
theorem count_cut (hc : c.toLower ∉ mark.tail) (a s : List Char) :
    count mark (a ++ c :: s) = count mark a + count mark (c :: s) := by
  induction a with
  | nil => simp [count]
  | cons d a ih =>
    have hbegins : begins mark (d :: (a ++ c :: s)) = begins mark (d :: a) := by
      cases mark with
      | nil => simp [begins]
      | cons m mark => rw [begins, begins, begins_append_cons (show c.toLower ∉ mark from hc)]
    rw [List.cons_append, count, hbegins, ih, count.eq_def mark (d :: a), Nat.add_assoc]

/-- A character that is not the first of the mark can be left out in front. -/
theorem count_cons (hc : mark.head? ≠ some c.toLower) (hmark : mark ≠ []) (s : List Char) :
    count mark (c :: s) = count mark s := by
  cases mark with
  | nil => exact absurd rfl hmark
  | cons m mark =>
    have hm : c.toLower ≠ m := fun h => hc (congrArg some h.symm)
    rw [count, begins_cons_of_ne hm, Bool.toNat_false, Nat.zero_add]

end Cut

end Text

namespace Network

/-- The characters with which a script ends. -/
def closing : List Char := ['<', '/', 's', 'c', 'r', 'i', 'p', 't']

/-- How often a text contains them, in letters of either case. -/
def closings (s : String) : Nat := Text.count closing s.toList

theorem closings_of_eq {s : String} {cs : List Char} (h : s = String.ofList cs) :
    closings s = Text.count closing cs := by
  rw [h, closings, String.toList_ofList]

theorem closings_eq_zero_iff {s : String} :
    closings s = 0 ↔ ¬ closing <:+: s.toList.map Char.toLower :=
  Text.count_eq_zero_iff (by decide)

/-! ### Strings in JSON -/

section Strings
open Text

theorem count_cons_closing {c : Char} (hc : c.toLower ≠ '<') (s : List Char) :
    count closing (c :: s) = count closing s := by
  have hfirst : closing.head? ≠ some c.toLower := fun h => hc (Option.some.inj h).symm
  exact count_cons hfirst (List.cons_ne_nil _ _) s

/-- A character that does not occur in the mark stands between two texts. -/
theorem count_between {c : Char} (hc : c.toLower ∉ closing) (a s : List Char) :
    count closing (a ++ c :: s) = count closing a + count closing s := by
  rw [count_cut (fun h => hc (List.mem_of_mem_tail h)), count_cons_closing]
  rintro h
  exact hc (h ▸ by decide)

/-- A character is written as it is, or as an escape, of which the mark can contain nothing. -/
theorem escape_cases (c : Char) :
    Json.escape c = [c] ∨
      c.toLower ∉ closing ∧ ∃ letters, Json.escape c = '\\' :: letters ∧
        ∀ d ∈ letters, d.toLower ≠ '<' := by
  unfold Json.escape
  split
  case h_8 =>
    split
    · rename_i hlow
      have hescape : ∀ n < 0x20, (Char.ofNat n).toLower ∉ closing ∧
          (Json.hexDigit (n / 16)).toLower ≠ '<' ∧ (Json.hexDigit (n % 16)).toLower ≠ '<' := by
        decide
      obtain ⟨hc, hhigh, hlow⟩ := hescape c.toNat hlow
      rw [Char.ofNat_toNat] at hc
      refine .inr ⟨hc, _, rfl, ?_⟩
      intro d hd
      simp only [List.mem_cons, List.not_mem_nil, or_false] at hd
      rcases hd with rfl | rfl | rfl | rfl | rfl
      · decide
      · decide
      · decide
      · exact hhigh
      · exact hlow
    · exact .inl rfl
  all_goals exact .inr ⟨by decide, _, rfl, List.forall_mem_singleton.2 (by decide)⟩

theorem begins_escaped {mark : List Char} (hmark : mark ⊆ closing) (cs s : List Char) :
    begins mark (cs.flatMap Json.escape ++ '"' :: s) = begins mark cs := by
  induction mark generalizing cs with
  | nil => simp [begins]
  | cons m mark ih =>
    obtain ⟨hm, hmark⟩ := List.cons_subset.1 hmark
    cases cs with
    | nil =>
      have hquote : ('"' : Char).toLower ≠ m := fun h => absurd (h ▸ hm) (by decide)
      exact begins_cons_of_ne hquote _ _
    | cons c cs =>
      rcases escape_cases c with hplain | ⟨hc, letters, hescape, -⟩
      · simp [hplain, begins, ih hmark]
      · have hslash : ('\\' : Char).toLower ≠ m := fun h => absurd (h ▸ hm) (by decide)
        have hm : c.toLower ≠ m := fun h => hc (h ▸ hm)
        rw [List.flatMap_cons, hescape, List.cons_append, List.cons_append,
          begins_cons_of_ne hslash, begins_cons_of_ne hm]

theorem count_append_of_ne {a : List Char} (ha : ∀ d ∈ a, d.toLower ≠ '<') (s : List Char) :
    count closing (a ++ s) = count closing s := by
  induction a with
  | nil => rfl
  | cons d a ih =>
    obtain ⟨hd, ha⟩ := List.forall_mem_cons.1 ha
    rw [List.cons_append, count_cons_closing hd, ih ha]

theorem count_escaped (cs s : List Char) :
    count closing (cs.flatMap Json.escape ++ '"' :: s) = count closing cs + count closing s := by
  induction cs with
  | nil => simp [count, count_cons_closing]
  | cons c cs ih =>
    rcases escape_cases c with hplain | ⟨hc, letters, hescape, hletters⟩
    · have hbegins := begins_escaped (List.Subset.refl closing) (c :: cs) s
      rw [List.flatMap_cons, hplain, List.singleton_append, List.cons_append] at hbegins ⊢
      rw [count, hbegins, ih, count, Nat.add_assoc]
    · rw [List.flatMap_cons, hescape, List.append_assoc, List.cons_append,
        count_cons_closing (by decide), count_append_of_ne hletters, ih,
        count_cons_closing (fun h => hc (h ▸ by decide))]

/-- A string is on a page what it is by itself. -/
theorem count_stringText (s : String) (rest : List Char) :
    count closing (Json.stringText (some s) ++ rest) = closings s + count closing rest := by
  rw [Json.stringText, Json.quoted, List.cons_append, count_cons_closing (by decide),
    List.append_assoc, List.singleton_append, count_escaped, closings]

end Strings

/-! ### Data on a page -/

section Data
open Text Json

theorem gap_compact (depth : Nat) : Style.compact.gap depth = [] := rfl

theorem afterColon_compact : Style.compact.afterColon = [] := rfl

/-- Values of a kind whose text contributes to the count whatever stands behind it. -/
def Contributes {α : Type} (write : α → Json) (k : α → Nat) : Prop :=
  ∀ a depth s, count closing ((write a).render .compact depth ++ s) = k a + count closing s

theorem contributes_node :
    Contributes Node.toJson fun n => 2 * closings n.name + closings n.color := by
  intro n depth s
  have hcolor : closings "color" = 0 := by decide
  have hid : closings "id" = 0 := by decide
  have hlabel : closings "label" = 0 := by decide
  simp only [Node.toJson, record, text, List.map_cons, List.map_nil, render, renderFields,
    gap_compact, afterColon_compact, List.nil_append, List.append_nil, List.append_assoc,
    List.cons_append]
  simp [count_stringText, count_cons_closing, hcolor, hid, hlabel]
  omega

theorem contributes_link :
    Contributes Link.toJson fun l =>
      closings l.source + closings l.target + closings l.color + (l.title.map closings).getD 0 := by
  intro l depth s
  have hcolor : closings "color" = 0 := by decide
  have hfrom : closings "from" = 0 := by decide
  have htitle : closings "title" = 0 := by decide
  have hto : closings "to" = 0 := by decide
  obtain ⟨source, target, color, title⟩ := l
  cases title
  all_goals
    simp only [Link.toJson, record, text, List.map_cons, List.map_nil, render, renderFields,
      gap_compact, afterColon_compact, List.nil_append, List.append_nil, List.append_assoc,
      List.cons_append, Option.map_none, Option.map_some, Option.toList]
    simp [count_stringText, count_cons_closing, hcolor, hfrom, htitle, hto]
    omega

theorem count_renderItems {α : Type} {write : α → Json} {k : α → Nat} (h : Contributes write k)
    (depth : Nat) (s : List Char) :
    (xs : List α) →
      count closing (renderItems .compact depth (xs.map write) ++ s) =
        (xs.map k).sum + count closing s
  | [] => by simp [renderItems]
  | [x] => by simp [renderItems, gap_compact, h x]
  | x :: y :: xs => by
    have ih := count_renderItems h depth s (y :: xs)
    rw [List.map_cons] at ih
    rw [List.map_cons, List.map_cons, renderItems, gap_compact, List.nil_append, List.append_assoc,
      h x, List.cons_append, count_cons_closing (by decide), ih, ← Nat.add_assoc, ← List.sum_cons,
      ← List.map_cons]
    exact List.cons_ne_nil _ _

theorem closings_array {α : Type} {write : α → Json} {k : α → Nat} (h : Contributes write k)
    (xs : List α) : closings (array (xs.map write)).compact = (xs.map k).sum := by
  cases xs with
  | nil =>
    rw [List.map_nil, List.map_nil, List.sum_nil]
    decide
  | cons x xs =>
    have hitems := count_renderItems h 1 [']'] (x :: xs)
    rw [List.map_cons] at hitems ⊢
    rw [closings, compact, String.toList_ofList, render, gap_compact, List.append_nil,
      List.cons_append, count_cons_closing (by decide), hitems, count_cons_closing (by decide)]
    rfl

end Data

/-! ### The page -/

section Page
open Text

theorem closings_join_lines (lines : List String) :
    closings (String.join (lines.map fun line => line ++ "\n")) = (lines.map closings).sum := by
  rw [closings, String.toList_join]
  induction lines with
  | nil => rfl
  | cons line lines ih =>
    rw [List.map_cons, List.flatMap_cons, String.toList_append, List.append_assoc,
      show "\n".toList = ['\n'] by decide, List.singleton_append, count_between (by decide), ih]
    rfl

/-- Behind a character that does not occur in the mark, a text can be cut. -/
theorem closings_append_of_last {a : String} {c : Char} (hlast : a.toList.getLast? = some c)
    (hc : c.toLower ∉ closing) (b : String) : closings (a ++ b) = closings a + closings b := by
  obtain ⟨front, hfront⟩ := List.getLast?_eq_some_iff.1 hlast
  simp only [closings, String.toList_append, hfront, List.append_assoc, List.singleton_append]
  rw [count_between hc, count_between hc]
  rfl

theorem closings_append_of_head {b : String} {c : Char} (hhead : b.toList.head? = some c)
    (hc : c.toLower ∉ closing.tail) (a : String) : closings (a ++ b) = closings a + closings b := by
  obtain ⟨behind, hbehind⟩ := List.head?_eq_some_iff.1 hhead
  rw [closings, String.toList_append, hbehind, count_cut hc, ← hbehind]
  rfl

theorem closings_title (title : String) :
    closings ("  <title>" ++ title ++ "</title>") = closings title := by
  have hbefore : closings "  <title>" = 0 := by decide
  have hbehind : closings "</title>" = 0 := by decide
  rw [closings_append_of_head (show "</title>".toList.head? = some '<' by decide) (by decide),
    closings_append_of_last (show "  <title>".toList.getLast? = some '>' by decide) (by decide),
    hbefore, hbehind]
  omega

theorem closings_call {opening : String} (hlast : opening.toList.getLast? = some '(')
    (hopening : closings opening = 0) (s : String) :
    closings (opening ++ s ++ ");") = closings s := by
  have hbehind : closings ");" = 0 := by decide
  rw [closings_append_of_head (show ");".toList.head? = some ')' by decide) (by decide),
    closings_append_of_last hlast (by decide), hopening, hbehind]
  omega

theorem closings_options :
    closings ("    var options = " ++ String.intercalate "\n" options ++ ";") = 0 := by
  simp only [closings, String.toList_append, String.toList_intercalate, options, List.map_cons,
    List.map_nil, toList_of_eq rfl]
  decide +kernel

theorem closings_head (title : String) : ((head title).map closings).sum = 1 + closings title := by
  simp only [head, List.map_cons, List.map_nil, List.sum_cons, List.sum_nil, closings_title,
    closings_of_eq rfl]
  change 0 + (0 + (0 + (0 + (closings title + (1 + (0 + (0 + (0 + (0 + 0))))))))) = _
  omega

theorem closings_body (n : Network) :
    (n.body.map closings).sum = 1 +
      (n.nodes.map fun v => 2 * closings v.name + closings v.color).sum +
      (n.links.map fun l => closings l.source + closings l.target + closings l.color +
        (l.title.map closings).getD 0).sum := by
  have hnodes : ∀ s, closings ("    var nodes = new vis.DataSet(" ++ s ++ ");") = closings s :=
    closings_call (by decide) (by decide)
  have hedges : ∀ s, closings ("    var edges = new vis.DataSet(" ++ s ++ ");") = closings s :=
    closings_call (by decide) (by decide)
  simp only [body, List.map_cons, List.map_nil, List.sum_cons, List.sum_nil, hnodes, hedges,
    closings_array contributes_node, closings_array contributes_link, closings_options,
    closings_of_eq rfl]
  change 0 + (0 + (0 + (_ + (_ + (0 + (0 + (0 + (1 + (0 + (0 + 0)))))))))) = _
  omega

/-- A page has the end tags of its two scripts, and those that its title and its data contain. -/
theorem closings_page (n : Network) :
    closings n.page = 2 + closings n.title +
      (n.nodes.map fun v => 2 * closings v.name + closings v.color).sum +
      (n.links.map fun l => closings l.source + closings l.target + closings l.color +
        (l.title.map closings).getD 0).sum := by
  rw [page, closings_join_lines, List.map_append, List.sum_append, closings_head, closings_body]
  omega

end Page

end Network

/-! ### Colours -/

section Colors
open Network

theorem toLower_digit {d : Char} (hd : d.isDigit) : d.toLower ≠ '<' := by
  have hrange : '0'.val ≤ d.val ∧ d.val ≤ '9'.val := by simpa [Char.isDigit] using hd
  have hsmall : ¬ (d.val ≥ 'A'.val ∧ d.val ≤ 'Z'.val) := by
    rintro ⟨hlarge, -⟩
    exact absurd (UInt32.le_trans hlarge hrange.2) (by decide)
  have hsame : d.toLower = d := dif_neg hsmall
  rw [hsame]
  rintro rfl
  exact absurd hd (by decide)

theorem Color.closings_rgba (r g b : Float) : closings (Color.rgba r g b) = 0 := by
  have hbyte : ∀ x : Float, ∀ d ∈ (Color.byte x).toList, d.toLower ≠ '<' :=
    fun x d hd => toLower_digit (Color.isDigit_of_mem_byte hd)
  have hmark : ∀ s : String, (s.toList.all fun d => d.toLower != '<') →
      ∀ d ∈ s.toList, d.toLower ≠ '<' := by
    intro s hs d hd
    exact bne_iff_ne.1 (List.all_eq_true.1 hs d hd)
  have hrgba : ∀ d ∈ (Color.rgba r g b).toList, d.toLower ≠ '<' := by
    simp only [Color.rgba, String.toList_append, List.forall_mem_append]
    exact ⟨⟨⟨⟨⟨⟨hmark _ (by decide), hbyte r⟩, hmark _ (by decide)⟩, hbyte g⟩,
      hmark _ (by decide)⟩, hbyte b⟩, hmark _ (by decide)⟩
  have hnone := count_append_of_ne hrgba []
  rwa [List.append_nil] at hnone

variable {W : Type} {c : Clustering W} {blackSingles : Bool}

theorem Clustering.closings_colorOf (id : UInt32) :
    closings (colorOf (c.palette blackSingles) id) = 0 := by
  rcases colorOf_palette c blackSingles id with h | ⟨r, g, b, h⟩
  · rw [h]
    decide
  · rw [h, Color.closings_rgba]

end Colors

/-! ### The two pages of an analysis -/

namespace Network

variable {W : Type}

/-- The names on a page, each as often as it stands there: a node shows its name beside its id, and
an edge the names of its two ends. -/
def written (names : List String) (edges : List (Edge W)) : List String :=
  names ++ names ++ edges.flatMap fun e => [e.source, e.target]

theorem sum_closings_written (names : List String) (edges : List (Edge W)) :
    ((written names edges).map closings).sum =
      (names.map fun name => 2 * closings name).sum +
        (edges.map fun e => closings e.source + closings e.target).sum := by
  have hnames : (names.map fun name => 2 * closings name).sum = 2 * (names.map closings).sum := by
    induction names with
    | nil => rfl
    | cons name names ih =>
      simp only [List.map_cons, List.sum_cons, ih]
      omega
  have hedges : ((edges.flatMap fun e => [e.source, e.target]).map closings).sum =
      (edges.map fun e => closings e.source + closings e.target).sum := by
    induction edges with
    | nil => rfl
    | cons e edges ih =>
      simp only [List.flatMap_cons, List.map_append, List.sum_append, List.map_cons, List.map_nil,
        List.sum_cons, List.sum_nil, ih]
      omega
  rw [written, List.map_append, List.map_append, List.sum_append, List.sum_append, hnames, hedges]
  omega

/-- Exactly the two end tags of a page's own scripts, if no name brings one. -/
theorem closings_written_iff {names : List String} {edges : List (Edge W)} {page : String}
    (hpage : closings page = 2 + ((written names edges).map closings).sum) :
    closings page = 2 ↔
      ∀ name ∈ written names edges, ¬ closing <:+: name.toList.map Char.toLower := by
  simp only [← closings_eq_zero_iff]
  have hsum : closings page = 2 ↔ ((written names edges).map closings).sum = 0 := by omega
  rw [hsum, List.sum_eq_zero_iff_forall_eq_nat, List.forall_mem_map]

end Network

open Network

variable {W : Type}

theorem Graph.closings_page_network (g : Graph W) :
    closings g.network.page = 2 + ((written g.names g.edges).map closings).sum := by
  have htitle : closings "Graph without clusters" = 0 := by decide
  have hplain : closings Color.plain = 0 := by decide
  rw [closings_page, sum_closings_written]
  simp [Graph.network, htitle, hplain, Function.comp_def]
  omega

theorem Clustering.closings_page_network (c : Clustering W) (blackSingles : Bool) :
    closings (c.network blackSingles).page = 2 +
      ((written (c.clusters.flatMap Cluster.nodes).eraseDups
        (c.clusters.flatMap Cluster.intraEdges ++ c.interEdges)).map closings).sum := by
  have htitle : closings (c.network blackSingles).title = 0 := by
    show closings "Graph with clusters" = 0
    decide
  have hcolors : ∀ n ∈ (c.network blackSingles).nodes, closings n.color = 0 := by
    intro n hn
    obtain ⟨k, -, hcolor⟩ := mem_nodes_network.1 hn
    rw [hcolor, closings_colorOf]
  have hnodes : ((c.network blackSingles).nodes.map fun v =>
      2 * closings v.name + closings v.color).sum =
      ((c.clusters.flatMap Cluster.nodes).eraseDups.map fun name => 2 * closings name).sum := by
    rw [← (names_network_perm.map fun name => 2 * closings name).sum_nat, List.map_map]
    refine congrArg List.sum (List.map_congr_left fun n hn => ?_)
    rw [hcolors n hn]
    rfl
  have hlinks : ((c.network blackSingles).links.map fun l =>
      closings l.source + closings l.target + closings l.color +
        (l.title.map closings).getD 0).sum =
      ((c.clusters.flatMap Cluster.intraEdges ++ c.interEdges).map fun e =>
        closings e.source + closings e.target).sum := by
    have hcrossing : closings Color.crossing = 0 := by decide
    have htip : closings "Inter-cluster edge" = 0 := by decide
    simp [network, closings_colorOf, hcrossing, htip, Function.comp_def, List.map_flatMap]
  rw [closings_page, sum_closings_written, htitle, hnodes, hlinks, Nat.add_zero, Nat.add_assoc]

/-- Where the scripts of the two pages of an analysis can end. Each page contains the end tag of a
script as often as the names on it do, and twice more for its own scripts, so that it has these two
alone exactly if no name of a node and no end of an edge contains the tag. -/
theorem closings_pages (g : Graph W) (c : Clustering W) (blackSingles : Bool) :
    let drawn := written g.names g.edges
    let clustered := written (c.clusters.flatMap Cluster.nodes).eraseDups
      (c.clusters.flatMap Cluster.intraEdges ++ c.interEdges)
    closings g.network.page = 2 + (drawn.map closings).sum ∧
    closings (c.network blackSingles).page = 2 + (clustered.map closings).sum ∧
    (closings g.network.page = 2 ↔
      ∀ name ∈ drawn, ¬ closing <:+: name.toList.map Char.toLower) ∧
    (closings (c.network blackSingles).page = 2 ↔
      ∀ name ∈ clustered, ¬ closing <:+: name.toList.map Char.toLower) := by
  intro drawn clustered
  have hgraph := g.closings_page_network
  have hclusters := c.closings_page_network blackSingles
  exact ⟨hgraph, hclusters, closings_written_iff hgraph, closings_written_iff hclusters⟩

/-- A node that is named like the end tag brings it twice more. -/
theorem closings_named_closing :
    let g : Graph Rat := ⟨["</script>"], []⟩
    closings g.network.page = 4 ∧ closings g.network.page ≠ 2 := by
  intro g
  have hpage : closings g.network.page = 4 := by
    rw [g.closings_page_network]
    decide
  exact ⟨hpage, by rw [hpage]; decide⟩

end CallClusters
