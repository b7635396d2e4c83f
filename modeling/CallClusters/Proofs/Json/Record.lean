import CallClusters.Proofs.Distinct
import CallClusters.Proofs.Json.Faithful
import Mathlib.Data.List.Count

/-! The values that spell a record. As an object a record may have its fields in any order, with
unknown ones among them and without those that hold their defaults; as an array it has them in their
own order. All these values have the same fields for a reader, and an object that gives a known
field twice has none. -/

namespace CallClusters.Json

variable {α : Type}

/-! ### What fields hold -/

/-- The reader gives back what the values spell. -/
def Reads (spelled : α → Json → Prop) (read : Json → Option α) : Prop :=
  ∀ a j, spelled a j → read j = some a

/-- A list is spelled by an array, item by item. -/
def ListSpelled (spelled : α → Json → Prop) (xs : List α) (j : Json) : Prop :=
  ∃ items, j = .array items ∧ List.Forall₂ spelled xs items

/-- What is absent is spelled by null. -/
def OptionalSpelled (spelled : α → Json → Prop) : Option α → Json → Prop
  | none, j => j = .null
  | some a, j => spelled a j

section Reads
variable {spelled : α → Json → Prop} {read : Json → Option α} (hread : Reads spelled read)
include hread

theorem Reads.list : Reads (ListSpelled spelled) (list? read) := by
  rintro xs _ ⟨items, rfl, hitems⟩
  change items.mapM read = some xs
  induction hitems with
  | nil => rfl
  | cons hitem _ ih => simp [hread _ _ hitem, ih]

theorem Reads.optional (hnull : ∀ a, ¬ spelled a .null) :
    Reads (OptionalSpelled spelled) (optional? read) := by
  rintro (_ | a) j h
  · rw [OptionalSpelled] at h
    rw [h]
    rfl
  · cases j with
    | null => exact absurd h (hnull a)
    | _ => exact congrArg (Option.map some) (hread a _ h)

end Reads

theorem reads_text : Reads (fun s j => j = text s) string? := by
  rintro s _ rfl
  rfl

theorem reads_word32 : Reads (fun (w : UInt32) j => j = nat w.toNat) word32? := by
  rintro w _ rfl
  exact Faithful.word32.read_write w

theorem listSpelled_map {spelled : α → Json → Prop} {write : α → Json}
    (h : ∀ a, spelled a (write a)) (xs : List α) :
    ListSpelled spelled xs (.array (xs.map write)) := by
  refine ⟨_, rfl, ?_⟩
  rw [List.forall₂_map_right_iff, List.forall₂_same]
  exact fun a _ => h a

/-! ### Records with their content -/

/-- A field of a record that has some content. -/
structure Slot where
  name : String
  /-- The values that spell the content. -/
  spelled : Json → Prop
  /-- The content is what the field holds when it is not given. -/
  omissible : Prop

namespace Slot

def text (name s : String) : Slot := ⟨name, fun j => j = Json.text s, s = ""⟩

def list (name : String) (spelled : α → Json → Prop) (xs : List α) : Slot :=
  ⟨name, ListSpelled spelled xs, xs = []⟩

def optional (name : String) (spelled : α → Json → Prop) (x : Option α) : Slot :=
  ⟨name, OptionalSpelled spelled x, x = none⟩

/-- A field without a default. -/
def required (name : String) (spelled : Json → Prop) : Slot := ⟨name, spelled, False⟩

end Slot

/-- Fields in their own order, without some of those that hold their defaults. -/
inductive Given : List Slot → Row → Prop
  | nil : Given [] []
  | give {slot : Slot} {slots : List Slot} {value : Json} {row : Row} (hvalue : slot.spelled value)
      (hrest : Given slots row) : Given (slot :: slots) ((slot.name, value) :: row)
  | leave {slot : Slot} {slots : List Slot} {row : Row} (homissible : slot.omissible)
      (hrest : Given slots row) : Given (slot :: slots) row

/-- The values that spell a record: an array of its fields, or of the first ones if the others hold
their defaults, and an object of its fields and of others, in any order. -/
inductive RecordSpelled (slots : List Slot) : Json → Prop
  | array {front behind : List Slot} {items : List Json} (hslots : slots = front ++ behind)
      (hitems : List.Forall₂ Slot.spelled front items) (hbehind : ∀ slot ∈ behind, slot.omissible) :
      RecordSpelled slots (.array items)
  | object {row given others : Row} (hgiven : Given slots given)
      (hothers : ∀ field ∈ others, field.1 ∉ slots.map Slot.name)
      (hrow : row.Perm (given ++ others)) : RecordSpelled slots (record row)

theorem RecordSpelled.ne_null {slots : List Slot} : ¬ RecordSpelled slots .null := by
  intro h
  cases h

/-- A record is spelled by an object of its fields alone. -/
theorem recordSpelled_perm {slots : List Slot} {row given : Row} (h : Given slots given)
    (hrow : row.Perm given) : RecordSpelled slots (record row) := by
  rw [← List.append_nil given] at hrow
  exact .object h (by simp) hrow

theorem recordSpelled_given {slots : List Slot} {row : Row} (h : Given slots row) :
    RecordSpelled slots (record row) := recordSpelled_perm h (.refl row)

/-! ### Reading a spelled record -/

/-- The row has the field with a value that spells its content, or lacks it for its default. -/
def Row.Holds (row : Row) (slot : Slot) : Prop :=
  (∃ value, row.lookup slot.name = some value ∧ slot.spelled value) ∨
    (row.lookup slot.name = none ∧ slot.omissible)

theorem Given.keys_sublist {slots : List Slot} {row : Row} (h : Given slots row) :
    (row.map Prod.fst).Sublist (slots.map Slot.name) := by
  induction h with
  | nil => exact .slnil
  | give _ _ ih => exact ih.cons_cons _
  | leave _ _ ih => exact ih.cons _

theorem Given.holds {slots : List Slot} {row : Row} (h : Given slots row)
    (hnames : (slots.map Slot.name).Nodup) : ∀ slot ∈ slots, row.Holds slot := by
  induction h with
  | nil => simp
  | @give first slots value row hvalue hrest ih =>
    obtain ⟨hfirst, hnames⟩ := List.nodup_cons.1 hnames
    rintro slot hslot
    rcases List.mem_cons.1 hslot with rfl | hslot
    · exact .inl ⟨value, by simp, hvalue⟩
    · have hne : slot.name ≠ first.name := fun heq => hfirst (heq ▸ List.mem_map_of_mem hslot)
      rw [Row.Holds, List.lookup_cons, beq_eq_false_iff_ne.2 hne]
      exact ih hnames slot hslot
  | @leave first slots row homissible hrest ih =>
    obtain ⟨hfirst, hnames⟩ := List.nodup_cons.1 hnames
    rintro slot hslot
    rcases List.mem_cons.1 hslot with rfl | hslot
    · refine .inr ⟨List.lookup_eq_none_iff.2 fun field hfield => ?_, homissible⟩
      have hkey := hrest.keys_sublist.subset (List.mem_map_of_mem hfield)
      simpa using fun heq : slot.name = field.1 => hfirst (heq ▸ hkey)
    · exact ih hnames slot hslot

theorem given_zip {front behind : List Slot} {items : List Json}
    (hitems : List.Forall₂ Slot.spelled front items) (hbehind : ∀ slot ∈ behind, slot.omissible) :
    Given (front ++ behind) (((front ++ behind).map Slot.name).zip items) := by
  induction hitems with
  | nil =>
    rw [List.nil_append, List.zip_nil_right]
    induction behind with
    | nil => exact .nil
    | cons slot behind ih =>
      obtain ⟨hslot, hbehind⟩ := List.forall_mem_cons.1 hbehind
      exact .leave hslot (ih hbehind)
  | cons hitem _ ih => exact .give hitem ih

theorem Row.Holds.of_perm {row given : Row} {slot : Slot} (hperm : row.Perm given)
    (hkeys : (given.map Prod.fst).Nodup) (h : given.Holds slot) : row.Holds slot := by
  have hlookup : row.lookup slot.name = given.lookup slot.name := by
    apply Option.ext
    intro value
    rw [lookup_eq_some_iff_of_nodup ((hperm.map Prod.fst).nodup_iff.2 hkeys),
      lookup_eq_some_iff_of_nodup hkeys, hperm.mem_iff]
  rwa [Row.Holds, hlookup]

/-- Whatever spells a record is read as a row with all its fields. -/
theorem row?_of_recordSpelled {slots : List Slot} {names : List String} {least : Nat} {j : Json}
    (h : RecordSpelled slots j) (hslots : slots.map Slot.name = names) (hnames : names.Nodup)
    (hleast : ∀ slot ∈ slots.take least, ¬ slot.omissible) (hlength : least ≤ slots.length) :
    ∃ row, j.row? names least = some row ∧ ∀ slot ∈ slots, row.Holds slot := by
  subst hslots
  cases h with
  | @array front behind items hsplit hitems hbehind =>
    subst hsplit
    have hcount := hitems.length_eq
    have hfew : least ≤ items.length := by
      by_contra hlt
      cases behind with
      | nil => simp at hlength; omega
      | cons slot behind =>
        have hplace : ((front ++ slot :: behind).take least)[front.length]? = some slot := by
          rw [List.getElem?_take_of_lt (by omega)]
          simp
        exact hleast slot (List.mem_of_getElem? hplace) (hbehind slot List.mem_cons_self)
    have hmany : items.length ≤ ((front ++ behind).map Slot.name).length := by
      simp [← hcount]
    exact ⟨_, if_pos ⟨hfew, hmany⟩, (given_zip hitems hbehind).holds hnames⟩
  | @object row given others hgiven hothers hrow =>
    have hkeys : (given.map Prod.fst).Nodup := hgiven.keys_sublist.nodup hnames
    have hknown : (row.filter fun field => (slots.map Slot.name).contains field.1).Perm given := by
      have hgivens :
          given.filter (fun field => (slots.map Slot.name).contains field.1) = given := by
        rw [List.filter_eq_self]
        intro field hfield
        exact List.contains_iff_mem.2 (hgiven.keys_sublist.subset (List.mem_map_of_mem hfield))
      have hnone : others.filter (fun field => (slots.map Slot.name).contains field.1) = [] := by
        rw [List.filter_eq_nil_iff]
        intro field hfield hmem
        exact hothers field hfield (List.contains_iff_mem.1 hmem)
      have hfilter := hrow.filter fun field => (slots.map Slot.name).contains field.1
      rwa [List.filter_append, hgivens, hnone, List.append_nil] at hfilter
    have hnodup := (hknown.map Prod.fst).nodup_iff.2 hkeys
    refine ⟨_, ?_, fun slot hslot => (hgiven.holds hnames slot hslot).of_perm hknown hkeys⟩
    rw [record, row?, named?_record, Option.bind_eq_bind, Option.bind_some, if_pos hnodup]

/-- A reader of records reads what is spelled if it makes the record of any row with its fields. -/
theorem reads_record {names : List String} {least : Nat} {slots : α → List Slot}
    {make : Row → Option α} (hslots : ∀ a, (slots a).map Slot.name = names) (hnames : names.Nodup)
    (hleast : ∀ a, ∀ slot ∈ (slots a).take least, ¬ slot.omissible) (hlength : least ≤ names.length)
    (hmake : ∀ a row, (∀ slot ∈ slots a, row.Holds slot) → make row = some a) :
    Reads (fun a => RecordSpelled (slots a)) fun j => j.row? names least >>= make := by
  intro a j h
  have hlength : least ≤ (slots a).length := by
    rwa [← hslots a, List.length_map] at hlength
  obtain ⟨row, hrow, hholds⟩ := row?_of_recordSpelled h (hslots a) hnames (hleast a) hlength
  simp only [hrow, Option.bind_eq_bind, Option.bind_some]
  exact hmake a row hholds

/-! Each kind of field is read as its content. -/

namespace Row

variable {row : Row} {name : String} {spelled : α → Json → Prop} {read : Json → Option α}

theorem defaulted?_of_lookup {value : Json} {default : α} (h : row.lookup name = some value) :
    row.defaulted? name default read = read value := by
  rw [defaulted?, h]

theorem defaulted?_of_holds {slot : Slot} {default a : α} (h : row.Holds slot)
    (hread : ∀ value, slot.spelled value → read value = some a)
    (hdefault : slot.omissible → a = default) :
    row.defaulted? slot.name default read = some a := by
  rcases h with ⟨value, hlookup, hvalue⟩ | ⟨hlookup, homissible⟩
  · rw [defaulted?_of_lookup hlookup]
    exact hread value hvalue
  · rw [defaulted?, hlookup, hdefault homissible]

theorem defaulted?_text {s : String} (h : row.Holds (.text name s)) :
    row.defaulted? name "" string? = some s :=
  defaulted?_of_holds h (reads_text s) id

theorem defaulted?_list (hread : Reads spelled read) {xs : List α}
    (h : row.Holds (.list name spelled xs)) : row.defaulted? name [] (list? read) = some xs :=
  defaulted?_of_holds h (hread.list xs) id

theorem optional?_optional (hread : Reads spelled read) (hnull : ∀ a, ¬ spelled a .null)
    {x : Option α} (h : row.Holds (.optional name spelled x)) :
    row.optional? name read = some x :=
  defaulted?_of_holds h (hread.optional hnull x) id

theorem required?_required (hread : Reads spelled read) {a : α}
    (h : row.Holds (.required name (spelled a))) : row.required? name read = some a := by
  rcases h with ⟨value, hlookup, hvalue⟩ | ⟨-, homissible⟩
  · have hlookup : row.lookup name = some value := hlookup
    rw [required?, hlookup, Option.bind_some]
    exact hread a value hvalue
  · exact homissible.elim

end Row

/-! ### Known fields that are given twice -/

/-- In the object of a record, or of a record in one of its fields, a known field is given twice. Of
the fields with records in them `inner` has the names, and when they contain such an object. -/
inductive RecordDoubled (names : List String) (inner : List (String × (Json → Prop))) : Json → Prop
  | here {fields : List (JsonString × Json)} {name : String} (hname : name ∈ names)
      (htwice : 2 ≤ (fields.map Prod.fst).count (some name)) :
      RecordDoubled names inner (.object fields)
  | field {fields : List (JsonString × Json)} {name : String} {value : Json}
      {doubled : Json → Prop} (hinner : (name, doubled) ∈ inner)
      (hvalue : (some name, value) ∈ fields) (hdoubled : doubled value) :
      RecordDoubled names inner (.object fields)
  | item {items : List Json} {name : String} {value : Json} {doubled : Json → Prop}
      (hinner : (name, doubled) ∈ inner) (hvalue : (name, value) ∈ names.zip items)
      (hdoubled : doubled value) : RecordDoubled names inner (.array items)

def ListDoubled (doubled : Json → Prop) (j : Json) : Prop :=
  ∃ items, j = .array items ∧ ∃ item ∈ items, doubled item

/-- Such values are not read. -/
def Rejects (doubled : Json → Prop) (read : Json → Option α) : Prop :=
  ∀ j, doubled j → read j = none

section Rejects
variable {doubled : Json → Prop} {read : Json → Option α} (hread : Rejects doubled read)
include hread

theorem Rejects.list : Rejects (ListDoubled doubled) (list? read) := by
  rintro _ ⟨items, rfl, item, hitem, hdoubled⟩
  change items.mapM read = none
  induction items with
  | nil => cases hitem
  | cons first items ih =>
    rcases List.mem_cons.1 hitem with rfl | hitem
    · simp [hread item hdoubled]
    · simp [ih hitem]

theorem Rejects.optional (hnull : ¬ doubled .null) : Rejects doubled (optional? read) := by
  intro j h
  cases j with
  | null => exact absurd h hnull
  | _ => exact congrArg (Option.map some) (hread _ h)

end Rejects

theorem RecordDoubled.ne_null {names : List String} {inner : List (String × (Json → Prop))} :
    ¬ RecordDoubled names inner .null := by
  intro h
  cases h

theorem named?_eq_some {fields : List (JsonString × Json)} {row : Row}
    (h : named? fields = some row) : fields = row.map fun (key, value) => (some key, value) := by
  induction fields generalizing row with
  | nil =>
    cases h
    rfl
  | cons field fields ih =>
    obtain ⟨_ | key, value⟩ := field
    · simp [named?] at h
    · simp only [named?, List.mapM_cons, Option.map_some, Option.bind_eq_bind, Option.bind_some,
        Option.bind_eq_some_iff, Option.pure_def, Option.some.injEq] at h
      obtain ⟨rest, hrest, rfl⟩ := h
      rw [ih hrest, List.map_cons]

theorem row?_object_eq_some {fields : List (JsonString × Json)} {names : List String} {least : Nat}
    {row : Row} (h : (Json.object fields).row? names least = some row) :
    ∃ given : Row, fields = given.map (fun (key, value) => (some key, value)) ∧
      row = given.filter (fun field => names.contains field.1) ∧ (row.map Prod.fst).Nodup := by
  simp only [row?, Option.bind_eq_bind, Option.bind_eq_some_iff, Option.ite_none_right_eq_some,
    Option.some.injEq] at h
  obtain ⟨given, hgiven, hnodup, rfl⟩ := h
  exact ⟨given, named?_eq_some hgiven, rfl, hnodup⟩

theorem keys_zip_sublist (names : List String) (items : List Json) :
    ((names.zip items).map Prod.fst).Sublist names := by
  induction names generalizing items with
  | nil => exact .slnil
  | cons name names ih =>
    cases items with
    | nil => exact List.nil_sublist _
    | cons item items => exact (ih items).cons_cons name

/-- If there is a row at all, then a field in it has a record with a field that is given twice. -/
theorem exists_doubled_of_row? {names : List String} {inner : List (String × (Json → Prop))}
    {least : Nat} {j : Json} {row : Row} (h : RecordDoubled names inner j) (hnames : names.Nodup)
    (hinner : ∀ entry ∈ inner, entry.1 ∈ names) (hrow : j.row? names least = some row) :
    ∃ name doubled value, (name, doubled) ∈ inner ∧ row.lookup name = some value ∧
      doubled value := by
  cases h with
  | @here fields name hname htwice =>
    obtain ⟨given, rfl, rfl, hnodup⟩ := row?_object_eq_some hrow
    have hkeys : (given.filter fun field => names.contains field.1).map Prod.fst =
        (given.map Prod.fst).filter names.contains := by
      rw [List.filter_map]
      rfl
    have honce := List.nodup_iff_count.1 hnodup name
    rw [hkeys, List.count_filter (List.contains_iff_mem.2 hname)] at honce
    have hcount := List.count_map_of_injective (given.map Prod.fst) some
      (fun _ _ => Option.some.inj) name
    rw [List.map_map] at htwice hcount
    exact absurd (Nat.le_trans htwice (Nat.le_of_eq hcount)) (by omega)
  | @field fields name value doubled hentry hvalue hdoubled =>
    obtain ⟨given, rfl, rfl, hnodup⟩ := row?_object_eq_some hrow
    obtain ⟨⟨key, given'⟩, hmem, heq⟩ := List.mem_map.1 hvalue
    cases heq
    refine ⟨name, doubled, value, hentry, ?_, hdoubled⟩
    rw [lookup_eq_some_iff_of_nodup hnodup, List.mem_filter]
    exact ⟨hmem, List.contains_iff_mem.2 (hinner _ hentry)⟩
  | @item items name value doubled hentry hvalue hdoubled =>
    rw [row?, Option.ite_none_right_eq_some] at hrow
    obtain ⟨-, hrow⟩ := hrow
    cases hrow
    refine ⟨name, doubled, value, hentry, ?_, hdoubled⟩
    rwa [lookup_eq_some_iff_of_nodup ((keys_zip_sublist names items).nodup hnames)]

/-- A reader of records does not read a field that is given twice if it makes nothing of a row in
which such a field lies deeper. -/
theorem rejects_record {names : List String} {inner : List (String × (Json → Prop))} {least : Nat}
    {make : Row → Option α} (hnames : names.Nodup) (hinner : ∀ entry ∈ inner, entry.1 ∈ names)
    (hmake : ∀ entry ∈ inner, ∀ (row : Row) value, row.lookup entry.1 = some value →
      entry.2 value → make row = none) :
    Rejects (RecordDoubled names inner) fun j => j.row? names least >>= make := by
  intro j h
  cases hrow : j.row? names least with
  | none => simp [hrow]
  | some row =>
    obtain ⟨name, doubled, value, hentry, hlookup, hdoubled⟩ :=
      exists_doubled_of_row? h hnames hinner hrow
    simp only [hrow, Option.bind_eq_bind, Option.bind_some]
    exact hmake _ hentry row value hlookup hdoubled

/-! ### Texts -/

/-- The text spells one of the values, perhaps between blanks. -/
def TextOf (values : Json → Prop) (text : String) : Prop :=
  ∃ j, values j ∧ Padded (Spells j) text.toList

theorem Reads.of_text {spelled : α → Json → Prop} {read : Json → Option α}
    (hread : Reads spelled read) {a : α} {text : String} (h : TextOf (spelled a) text) :
    (parse? text).bind read = some a := by
  obtain ⟨j, hj, htext⟩ := h
  rw [parse?_of_spells htext, Option.bind_some, hread a j hj]

theorem Rejects.of_text {doubled : Json → Prop} {read : Json → Option α}
    (hread : Rejects doubled read) {text : String} (h : TextOf doubled text) :
    (parse? text).bind read = none := by
  obtain ⟨j, hj, htext⟩ := h
  rw [parse?_of_spells htext, Option.bind_some, hread j hj]

/-- What is printed of a value spells it. -/
theorem textOf_print {values : Json → Prop} {j : Json} (hj : values j) (hproper : j.Proper)
    {print : Json → String} (hprint : print = compact ∨ print = pretty) :
    TextOf values (print j) := by
  refine ⟨j, hj, ?_⟩
  rcases hprint with rfl | rfl
  · rw [compact, String.toList_ofList]
    exact padded_render Style.blank_compact hproper 0
  · rw [pretty, String.toList_ofList]
    exact padded_render Style.blank_pretty hproper 0

end CallClusters.Json
