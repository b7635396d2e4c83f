import CallClusters.Json.Row
import CallClusters.Proofs.Json.RoundTrip

/-! Writers and readers that belong together: what one writes has only proper numbers, and the
other reads it back. They make up larger ones, through lists and records, and the texts in
between change nothing. -/

namespace CallClusters.Json

/-! ### Proper numbers -/

theorem proper_text (s : String) : (text s).Proper := by simp [Proper, text, tokens]

theorem proper_nat (n : Nat) : (nat n).Proper := by
  intro m hm
  have hm : m = .ofNat n := by simpa [nat, tokens] using hm
  rw [hm]
  exact Numeral.proper_ofNat n

theorem number_mem_itemTokens {n : Numeral} :
    (items : List Json) → .number n ∈ itemTokens items → ∃ item ∈ items, .number n ∈ item.tokens
  | [item], h => ⟨item, by simp, h⟩
  | item :: next :: items, h => by
    simp only [itemTokens, List.mem_append, List.mem_cons, reduceCtorEq, false_or] at h
    rcases h with h | h
    · exact ⟨item, by simp, h⟩
    · obtain ⟨later, hlater, h⟩ := number_mem_itemTokens (next :: items) h
      exact ⟨later, List.mem_cons_of_mem _ hlater, h⟩

theorem number_mem_fieldTokens {n : Numeral} :
    (fields : List (JsonString × Json)) → .number n ∈ fieldTokens fields →
      ∃ field ∈ fields, .number n ∈ field.2.tokens
  | [field], h => ⟨field, by simp, by simpa [fieldTokens] using h⟩
  | field :: next :: fields, h => by
    simp only [fieldTokens, List.cons_append, List.mem_append, List.mem_cons, reduceCtorEq,
      false_or] at h
    rcases h with h | h
    · exact ⟨field, by simp, h⟩
    · obtain ⟨later, hlater, h⟩ := number_mem_fieldTokens (next :: fields) h
      exact ⟨later, List.mem_cons_of_mem _ hlater, h⟩

theorem proper_array {items : List Json} (h : ∀ item ∈ items, item.Proper) :
    Proper (.array items) := by
  intro n hn
  obtain ⟨item, hitem, hn⟩ := number_mem_itemTokens items (by simpa [tokens] using hn)
  exact h item hitem n hn

theorem proper_object {fields : List (JsonString × Json)} (h : ∀ field ∈ fields, field.2.Proper) :
    Proper (.object fields) := by
  intro n hn
  obtain ⟨field, hfield, hn⟩ := number_mem_fieldTokens fields (by simpa [tokens] using hn)
  exact h field hfield n hn

theorem proper_record {fields : List (String × Json)} (h : ∀ field ∈ fields, field.2.Proper) :
    (record fields).Proper := by
  apply proper_object
  intro field hfield
  obtain ⟨given, hgiven, rfl⟩ := List.mem_map.1 hfield
  exact h given hgiven

/-! ### Reading a record -/

theorem mapM_map_eq_some {α β : Type} {read : β → Option α} {write : α → β}
    (h : ∀ a, read (write a) = some a) (xs : List α) : (xs.map write).mapM read = some xs := by
  induction xs with
  | nil => rfl
  | cons x xs ih => simp [h, ih]

theorem named?_record (fields : List (String × Json)) :
    named? (fields.map fun (key, value) => (some key, value)) = some fields := by
  unfold named?
  apply mapM_map_eq_some
  intro field
  rfl

/-- A record that gives none but known fields, and none of them twice, is read as it stands. -/
theorem row?_record {names : List String} {fields : List (String × Json)}
    (hknown : ∀ key ∈ fields.map Prod.fst, key ∈ names) (hkeys : (fields.map Prod.fst).Nodup)
    (least : Nat) : (record fields).row? names least = some fields := by
  have hfilter : fields.filter (fun field => names.contains field.1) = fields := by
    rw [List.filter_eq_self]
    intro field hfield
    exact List.contains_iff_mem.2 (hknown _ (List.mem_map_of_mem hfield))
  simp only [row?, record, named?_record, Option.bind_eq_bind, Option.bind_some, hfilter,
    if_pos hkeys]

namespace Row

variable {α : Type} (name : String) (default : α) (read : Json → Option α)

theorem defaulted?_nil : defaulted? [] name default read = some default := rfl

/-- The first field decides, if it has the name. -/
theorem defaulted?_cons (key : String) (value : Json) (row : Row) :
    defaulted? ((key, value) :: row) name default read =
      if name = key then read value else defaulted? row name default read := by
  by_cases h : name = key
  · rw [defaulted?, List.lookup_cons, beq_iff_eq.2 h, if_pos h]
  · rw [defaulted?, List.lookup_cons, beq_eq_false_iff_ne.2 h, if_neg h, defaulted?]

/-- The same for a field that must be given. -/
theorem required?_cons (key : String) (value : Json) (row : Row) :
    required? ((key, value) :: row) name read =
      if name = key then read value else required? row name read := by
  by_cases h : name = key
  · rw [required?, List.lookup_cons, beq_iff_eq.2 h, if_pos h]
    rfl
  · rw [required?, List.lookup_cons, beq_eq_false_iff_ne.2 h, if_neg h]
    rfl

end Row

/-! ### Reading a number -/

theorem natBelow?_nat {n bound : Nat} (h : n < bound) : natBelow? bound (nat n) = some n := by
  simp [nat, Numeral.ofNat, natBelow?, Numeral.value_digits, h]

/-! ### Writers with their readers -/

/-- The reader gives back all that the writer was given. -/
structure Faithful {α : Type} (write : α → Json) (read : Json → Option α) : Prop where
  proper : ∀ a, (write a).Proper
  read_write : ∀ a, read (write a) = some a

namespace Faithful

variable {α : Type} {write : α → Json} {read : Json → Option α}

theorem string : Faithful text string? := ⟨proper_text, fun _ => rfl⟩

theorem word32 : Faithful (fun w : UInt32 => nat w.toNat) word32? where
  proper w := proper_nat w.toNat
  read_write w := by
    have hw : w.toNat < wordBound32 := w.toNat_lt
    rw [word32?, natBelow?_nat hw, Option.map_some, UInt32.ofNat_toNat]

theorem list (h : Faithful write read) :
    Faithful (fun xs => .array (xs.map write)) (list? read) where
  proper xs := by
    apply proper_array
    intro item hitem
    obtain ⟨x, -, rfl⟩ := List.mem_map.1 hitem
    exact h.proper x
  read_write := mapM_map_eq_some h.read_write

/-- The way over a text, in either style, loses nothing. -/
theorem parse?_render (h : Faithful write read) (a : α) {style : Style} (hstyle : style.Blank) :
    (parse? (String.ofList ((write a).render style 0))).bind read = some a := by
  rw [Json.parse?_render (h.proper a) hstyle, Option.bind_some, h.read_write]

/-- The same for the two ways of writing. -/
theorem parse?_write (h : Faithful write read) {print : Json → String}
    (hprint : print = compact ∨ print = pretty) (a : α) :
    (parse? (print (write a))).bind read = some a := by
  rcases hprint with rfl | rfl
  · exact h.parse?_render a Style.blank_compact
  · exact h.parse?_render a Style.blank_pretty

end Faithful

end CallClusters.Json
