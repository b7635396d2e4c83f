import CallClusters.Page.Network
import CallClusters.Proofs.Json.Faithful
import CallClusters.Proofs.Text

/-! What a page says, read off its text. The title and the two data sets of the script stand each on
a line of its own, since data in JSON have no line break, and no other line begins as these three do.
The objects in the data say by their keys which nodes and links there are. So reading a page gives
back the network that was written into it. -/

namespace CallClusters

namespace Json

/-- The fields of an object by name, none of them given twice. -/
def fields? : Json → Option Row
  | .object fields => do
    let row ← named? fields
    if (row.map Prod.fst).Nodup then some row else none
  | _ => none

theorem fields?_record {fields : List (String × Json)} (hkeys : (fields.map Prod.fst).Nodup) :
    (record fields).fields? = some fields := by
  simp only [fields?, record, named?_record, Option.bind_eq_bind, Option.bind_some, if_pos hkeys]

/-! ### Data on one line -/

theorem newline_not_mem_escape (c : Char) : '\n' ∉ escape c := by
  unfold escape
  split
  case h_8 =>
    split
    · rename_i hlow
      have hdigits : ∀ n < 0x20, hexDigit (n / 16) ≠ '\n' ∧ hexDigit (n % 16) ≠ '\n' := by decide
      obtain ⟨hhigh, hlow⟩ := hdigits c.toNat hlow
      simp [hhigh.symm, hlow.symm]
    · rename_i hhigh
      intro h
      obtain rfl : '\n' = c := by simpa using h
      exact hhigh (by decide)
  all_goals decide

theorem newline_not_mem_stringText (s : String) : '\n' ∉ stringText (some s) := by
  simp only [stringText, quoted, List.mem_cons, List.mem_append, List.mem_flatMap, List.not_mem_nil,
    or_false, not_or, not_exists, not_and]
  exact ⟨by decide, fun c _ => newline_not_mem_escape c, by decide⟩

/-- The compact text has no line break, at whatever depth. -/
def OneLine (v : Json) : Prop := ∀ depth, '\n' ∉ v.render .compact depth

theorem OneLine.not_mem_compact {v : Json} (h : v.OneLine) : '\n' ∉ v.compact.toList := by
  rw [compact, String.toList_ofList]
  exact h 0

theorem oneLine_text (s : String) : (text s).OneLine := fun _ => by
  rw [text, render]
  exact newline_not_mem_stringText s

theorem newline_not_mem_renderItems (depth : Nat) :
    (items : List Json) → (∀ item ∈ items, item.OneLine) →
      '\n' ∉ renderItems .compact depth items
  | [], _ => List.not_mem_nil
  | [item], h => by
    rw [renderItems]
    exact h item (by simp) depth
  | item :: next :: items, h => by
    obtain ⟨hitem, hrest⟩ := List.forall_mem_cons.1 h
    have ih := newline_not_mem_renderItems depth (next :: items) hrest
    rw [renderItems]
    · simp only [Style.compact, List.nil_append, List.mem_append, List.mem_cons, not_or]
      exact ⟨hitem depth, by decide, ih⟩
    · exact List.cons_ne_nil _ _

theorem oneLine_array {items : List Json} (h : ∀ item ∈ items, item.OneLine) :
    (array items).OneLine := fun depth => by
  cases items with
  | nil =>
    rw [render]
    decide
  | cons item items =>
    have hitems := newline_not_mem_renderItems (depth + 1) (item :: items) h
    rw [render]
    simp only [Style.compact, List.append_nil, List.mem_append, List.mem_cons, List.not_mem_nil,
      or_false, not_or]
    exact ⟨⟨by decide, hitems⟩, by decide⟩

theorem oneLine_list {α : Type} {write : α → Json} (h : ∀ a, (write a).OneLine) (xs : List α) :
    (array (xs.map write)).OneLine := by
  apply oneLine_array
  intro item hitem
  obtain ⟨x, -, rfl⟩ := List.mem_map.1 hitem
  exact h x

theorem newline_not_mem_renderFields (depth : Nat) :
    (fields : List (String × Json)) → (∀ field ∈ fields, field.2.OneLine) →
      '\n' ∉ renderFields .compact depth (fields.map fun (key, value) => (some key, value))
  | [], _ => List.not_mem_nil
  | [(key, value)], h => by
    rw [List.map_cons, List.map_nil, renderFields]
    simp only [Style.compact, List.nil_append, List.mem_append, List.mem_singleton, not_or]
    exact ⟨⟨newline_not_mem_stringText key, by decide⟩, h (key, value) (by simp) depth⟩
  | (key, value) :: next :: fields, h => by
    obtain ⟨hvalue, hrest⟩ := List.forall_mem_cons.1 h
    have ih := newline_not_mem_renderFields depth (next :: fields) hrest
    rw [List.map_cons] at ih ⊢
    rw [List.map_cons, renderFields]
    · simp only [Style.compact, List.nil_append, List.mem_append, List.mem_cons, List.not_mem_nil,
        or_false, not_or]
      exact ⟨⟨⟨newline_not_mem_stringText key, by decide⟩, hvalue depth⟩, by decide, ih⟩
    · exact List.cons_ne_nil _ _

theorem oneLine_record {fields : List (String × Json)} (h : ∀ field ∈ fields, field.2.OneLine) :
    (record fields).OneLine := fun depth => by
  cases fields with
  | nil =>
    rw [record, List.map_nil, render]
    decide
  | cons field fields =>
    have hfields := newline_not_mem_renderFields (depth + 1) (field :: fields) h
    rw [List.map_cons] at hfields
    rw [record, List.map_cons, render]
    simp only [Style.compact, List.append_nil, List.mem_append, List.mem_cons, List.not_mem_nil,
      or_false, not_or]
    exact ⟨⟨by decide, hfields⟩, by decide⟩

end Json

namespace Network
open Json (Faithful)

/-! ### Nodes and links by their keys -/

def Node.ofJson? (j : Json) : Option Node := do
  let row ← j.fields?
  let name ← row.required? "id" Json.string?
  let label ← row.required? "label" Json.string?
  let color ← row.required? "color" Json.string?
  if label = name then some ⟨name, color⟩ else none

def Link.ofJson? (j : Json) : Option Link := do
  let row ← j.fields?
  let source ← row.required? "from" Json.string?
  let target ← row.required? "to" Json.string?
  let color ← row.required? "color" Json.string?
  let title ← row.optional? "title" Json.string?
  some ⟨source, target, color, title⟩

theorem Node.faithful : Faithful toJson ofJson? where
  proper n := Json.proper_record (by simp [Json.proper_text])
  read_write n := by
    rw [ofJson?, toJson, Json.fields?_record (by simp)]
    simp only [Json.Row.required?_cons, String.reduceEq, if_true, if_false,
      Faithful.string.read_write, Option.bind_eq_bind, Option.bind_some]

theorem optional?_text (s : String) :
    Json.optional? Json.string? (.text s) = some (some s) := rfl

theorem Link.faithful : Faithful toJson ofJson? where
  proper l := by
    apply Json.proper_record
    obtain ⟨source, target, color, title⟩ := l
    cases title <;> simp [Json.proper_text]
  read_write l := by
    obtain ⟨source, target, color, title⟩ := l
    cases title <;>
    · rw [ofJson?, toJson, Json.fields?_record (by simp)]
      simp only [Json.Row.required?_cons, Json.Row.optional?, Json.Row.defaulted?_cons,
        Json.Row.defaulted?_nil, Option.map_some, Option.map_none, Option.toList_some,
        Option.toList_none, List.cons_append, List.nil_append, String.reduceEq, if_true, if_false,
        Faithful.string.read_write, optional?_text, Option.bind_eq_bind, Option.bind_some]

theorem Node.oneLine (n : Node) : n.toJson.OneLine :=
  Json.oneLine_record (by simp [Json.oneLine_text])

theorem Link.oneLine (l : Link) : l.toJson.OneLine := by
  obtain ⟨source, target, color, title⟩ := l
  cases title <;> exact Json.oneLine_record (by simp [Json.oneLine_text])

/-! ### The lines of a page -/

def nodeData (n : Network) : String := (Json.array (n.nodes.map Node.toJson)).compact

def linkData (n : Network) : String := (Json.array (n.links.map Link.toJson)).compact

/-- Where a page is filled in: on a line of its own, between two marks. -/
structure Slot where
  front : String
  behind : String
  deriving DecidableEq

namespace Slot

def title : Slot := ⟨"  <title>", "</title>"⟩

def nodes : Slot := ⟨"    var nodes = new vis.DataSet(", ");"⟩

def edges : Slot := ⟨"    var edges = new vis.DataSet(", ");"⟩

def all : List Slot := [title, nodes, edges]

/-- The line with the given text in the slot. -/
def fill (slot : Slot) (inner : String) : String := slot.front ++ inner ++ slot.behind

/-- What a line has in the slot, if it has the slot. -/
def content? (slot : Slot) (line : List Char) : Option (List Char) := do
  (← line.dropPrefix? slot.front.toList).dropSuffix? slot.behind.toList

/-- What a text has in the slot, on all its lines. -/
def contents (slot : Slot) (text : List Char) : List (List Char) :=
  (Text.cut '\n' text).filterMap slot.content?

/-- What the page has in the slot. It must have it on one line and no other. -/
def read? (slot : Slot) (page : String) : Option String :=
  match slot.contents page.toList with
  | [inner] => some (String.ofList inner)
  | _ => none

theorem content?_fill (slot : Slot) (inner : String) :
    slot.content? (slot.fill inner).toList = some inner.toList := by
  rw [content?, fill, String.toList_append, String.toList_append, List.append_assoc,
    List.dropPrefix?_append_of_beq _ (beq_self_eq_true _)]
  exact List.dropSuffix?_eq_some_iff.2 ⟨_, rfl, beq_self_eq_true _⟩

theorem content?_eq_none {slot : Slot} {line : List Char} (h : ¬ slot.front.toList <+: line) :
    slot.content? line = none := by
  have hdrop : line.dropPrefix? slot.front.toList = none := by
    rw [Option.eq_none_iff_forall_ne_some]
    intro rest hrest
    obtain ⟨front, hline, hfront⟩ := List.dropPrefix?_eq_some_iff.1 hrest
    exact h ⟨rest, by rw [hline, beq_iff_eq.1 hfront]⟩
  rw [content?, hdrop]
  rfl

/-- No line begins like those of two slots. -/
theorem apart : ∀ slot ∈ all, ∀ other ∈ all, slot ≠ other →
    ¬ slot.front.toList <+: other.front.toList := by decide

theorem content?_append_eq_none {slot other : Slot} (hslot : slot ∈ all) (hother : other ∈ all)
    (hne : slot ≠ other) (rest : List Char) :
    slot.content? (other.front.toList ++ rest) = none := by
  apply content?_eq_none
  intro hfront
  rcases List.prefix_or_prefix_of_prefix hfront (List.prefix_append other.front.toList rest)
    with h | h
  · exact apart slot hslot other hother hne h
  · exact apart other hother slot hslot hne.symm h

/-- The line of a slot has nothing in the others. -/
theorem contents_fill {slot other : Slot} (hslot : slot ∈ all) (hother : other ∈ all)
    {inner : String} (hinner : '\n' ∉ inner.toList) :
    slot.contents (other.fill inner).toList = if slot = other then [inner.toList] else [] := by
  have hmarks : ∀ slot ∈ all, '\n' ∉ slot.front.toList ∧ '\n' ∉ slot.behind.toList := by decide
  have hline : '\n' ∉ (other.fill inner).toList := by
    simp [fill, hmarks other hother, hinner]
  rw [contents, Text.cut_of_not_mem hline]
  split
  case isTrue heq =>
    rw [heq, List.filterMap_cons_some (content?_fill other inner), List.filterMap_nil]
  case isFalse hne =>
    rw [fill, String.toList_append, String.toList_append, List.append_assoc,
      List.filterMap_cons_none (content?_append_eq_none hslot hother hne _), List.filterMap_nil]

end Slot

/-! The lines around the slots, which are the same on every page. -/

def above : List String := (head "").take 4

def between : List String := (head "").drop 5 ++ (body ⟨"", [], []⟩).take 3

def below : List String := (body ⟨"", [], []⟩).drop 5

theorem lines_eq (n : Network) :
    head n.title ++ n.body = above ++ Slot.title.fill n.title ::
      (between ++ Slot.nodes.fill n.nodeData :: Slot.edges.fill n.linkData :: below) := rfl

/-- None of them begins like the line of a slot. -/
theorem front_apart_fixed :
    ∀ part ∈ (above ++ between ++ below).flatMap fun line => Text.cut '\n' line.toList,
      ∀ front ∈ Slot.all.map fun slot => slot.front.toList, ¬ front <+: part := by
  simp only [above, between, below, Slot.all, Slot.title, Slot.nodes, Slot.edges, head, body,
    options, List.take_succ_cons, List.take_zero, List.drop_succ_cons, List.drop_zero,
    List.cons_append, List.nil_append, List.flatMap_cons, List.flatMap_nil, List.map_cons,
    List.map_nil, String.toList_append, String.toList_intercalate, Text.toList_of_eq rfl]
  decide +kernel

theorem contents_eq_nil {slot : Slot} (hslot : slot ∈ Slot.all) {lines : List String}
    (hlines : lines ⊆ above ++ between ++ below) :
    (lines.flatMap fun line => slot.contents line.toList) = [] := by
  refine List.flatMap_eq_nil_iff.2 fun line hline => List.filterMap_eq_nil_iff.2 fun part hpart => ?_
  exact Slot.content?_eq_none (front_apart_fixed part
    (List.mem_flatMap.2 ⟨line, hlines hline, hpart⟩) _ (List.mem_map_of_mem hslot))

/-- A slot is filled on its own line only. -/
theorem contents_page {slot : Slot} (hslot : slot ∈ Slot.all) (n : Network) :
    slot.contents n.page.toList = slot.contents (Slot.title.fill n.title).toList ++
      (slot.contents (Slot.nodes.fill n.nodeData).toList ++
        slot.contents (Slot.edges.fill n.linkData).toList) := by
  have hpage : slot.contents n.page.toList =
      (head n.title ++ n.body).flatMap fun line => slot.contents line.toList := by
    have hlast : slot.content? [] = none :=
      Slot.content?_eq_none (by revert slot; decide)
    rw [Slot.contents, page, show "\n" = String.singleton '\n' from rfl, Text.cut_join,
      List.filterMap_append, List.filterMap_cons_none hlast, List.filterMap_nil, List.append_nil,
      List.filterMap_flatMap]
    rfl
  rw [hpage, lines_eq, List.flatMap_append, List.flatMap_cons, List.flatMap_append,
    List.flatMap_cons, List.flatMap_cons, contents_eq_nil hslot (by simp),
    contents_eq_nil hslot (by simp), contents_eq_nil hslot (by simp), List.nil_append,
    List.nil_append, List.append_nil]

/-! ### The network on a page -/

/-- The network that a page draws, told by its title and its data. -/
def read? (page : String) : Option Network := do
  let title ← Slot.title.read? page
  let nodes ← (Json.parse? (← Slot.nodes.read? page)).bind (Json.list? Node.ofJson?)
  let links ← (Json.parse? (← Slot.edges.read? page)).bind (Json.list? Link.ofJson?)
  some ⟨title, nodes, links⟩

/-- What stands in a slot is read from it. -/
theorem slot_read?_page {n : Network} (htitle : '\n' ∉ n.title.toList) :
    Slot.title.read? n.page = some n.title ∧ Slot.nodes.read? n.page = some n.nodeData ∧
      Slot.edges.read? n.page = some n.linkData := by
  have hnodes : '\n' ∉ n.nodeData.toList :=
    (Json.oneLine_list Node.oneLine n.nodes).not_mem_compact
  have hlinks : '\n' ∉ n.linkData.toList :=
    (Json.oneLine_list Link.oneLine n.links).not_mem_compact
  have hcontents {slot : Slot} (hslot : slot ∈ Slot.all) :
      slot.contents n.page.toList = (if slot = Slot.title then [n.title.toList] else []) ++
        ((if slot = Slot.nodes then [n.nodeData.toList] else []) ++
          if slot = Slot.edges then [n.linkData.toList] else []) := by
    rw [contents_page hslot, Slot.contents_fill hslot (by decide) htitle,
      Slot.contents_fill hslot (by decide) hnodes, Slot.contents_fill hslot (by decide) hlinks]
  refine ⟨?_, ?_, ?_⟩ <;>
  · rw [Slot.read?, hcontents (by decide)]
    simp [Slot.title, Slot.nodes, Slot.edges]

/-- A page says all that was drawn, and nothing else. -/
theorem read?_page {n : Network} (htitle : '\n' ∉ n.title.toList) : read? n.page = some n := by
  obtain ⟨hslot, hnodes, hlinks⟩ := slot_read?_page htitle
  simp only [read?, hslot, hnodes, hlinks, nodeData, linkData, Option.bind_eq_bind, Option.bind_some,
    Node.faithful.list.parse?_write (.inl rfl), Link.faithful.list.parse?_write (.inl rfl)]

end Network

end CallClusters
