import CallClusters.Json.Printer
import CallClusters.Proofs.Json.Number

/-! The texts that spell a value: blanks may stand around every token, and strings and numbers have
several spellings. Every such text has the tokens of the value, and what is printed is one of them,
in every style that puts nothing but blanks between tokens. -/

namespace CallClusters.Json

/-! ### Strings -/

/-- The inside of a literal: characters that stand for themselves, escapes by a letter, and escapes
by four digits, of which two may make one character. -/
inductive UnitsText : List Nat → List Char → Prop
  | nil : UnitsText [] []
  | plain {c : Char} {units : List Nat} {text : List Char} (hquote : c ≠ '"') (hslash : c ≠ '\\')
      (hlow : ¬ c.toNat < 0x20) (hrest : UnitsText units text) :
      UnitsText (c.toNat :: units) (c :: text)
  | letter {letter c : Char} {units : List Nat} {text : List Char}
      (hletter : unescape? letter = some c) (hrest : UnitsText units text) :
      UnitsText (c.toNat :: units) ('\\' :: letter :: text)
  | code {a b c d : Char} {unit : Nat} {units : List Nat} {text : List Char}
      (hunit : unit? a b c d = some unit) (hrest : UnitsText units text) :
      UnitsText (unit :: units) ('\\' :: 'u' :: a :: b :: c :: d :: text)

/-- A string in one of its spellings. -/
def LiteralText (t : JsonString) (text : List Char) : Prop :=
  ∃ units body, UnitsText units body ∧ (join? [] units).map String.ofList = t ∧
    text = '"' :: (body ++ ['"'])

theorem units?_plain {c : Char} (hquote : c ≠ '"') (hslash : c ≠ '\\') (hlow : ¬ c.toNat < 0x20)
    (read : List Nat) (s : List Char) : units? read (c :: s) = units? (c.toNat :: read) s := by
  rw [units?.eq_def]
  split
  case h_5 heq =>
    cases heq
    rw [if_neg (by simp [hlow, hslash])]
  all_goals simp_all

theorem units?_letter {letter c : Char} (hletter : unescape? letter = some c) (read : List Nat)
    (s : List Char) : units? read ('\\' :: letter :: s) = units? (c.toNat :: read) s := by
  have hu : letter ≠ 'u' := by
    rintro rfl
    simp [unescape?] at hletter
  rw [units?.eq_def]
  split
  case h_5 hnot heq =>
    cases heq
    exact absurd rfl (hnot _ _ rfl)
  all_goals simp_all

theorem units?_unitsText {units : List Nat} {text : List Char} (h : UnitsText units text)
    (read : List Nat) (s : List Char) :
    units? read (text ++ '"' :: s) = some (read.reverse ++ units, s) := by
  induction h generalizing read with
  | nil => simp [units?]
  | plain hquote hslash hlow _ ih =>
    rw [List.cons_append, units?_plain hquote hslash hlow, ih]
    simp
  | letter hletter _ ih =>
    rw [List.cons_append, List.cons_append, units?_letter hletter, ih]
    simp
  | code hunit _ ih =>
    simp only [List.cons_append, units?, hunit]
    rw [ih]
    simp

theorem literal?_literalText {t : JsonString} {text : List Char} (h : LiteralText t text)
    (s : List Char) : ∃ body, text = '"' :: body ∧ literal? (body ++ s) = some (t, s) := by
  obtain ⟨units, body, hunits, rfl, rfl⟩ := h
  refine ⟨_, rfl, ?_⟩
  have hread := units?_unitsText hunits [] s
  rw [List.reverse_nil, List.nil_append] at hread
  simp only [List.append_assoc, List.singleton_append, literal?, hread, Option.bind_eq_bind,
    Option.bind_some, Option.pure_def]

/-! A printed string is spelled by escapes. -/

theorem unit?_hexDigit : ∀ n < 32,
    unit? '0' '0' (hexDigit (n / 16)) (hexDigit (n % 16)) = some n := by
  decide

theorem UnitsText.escape {units : List Nat} {text : List Char} (h : UnitsText units text)
    (c : Char) : UnitsText (c.toNat :: units) (Json.escape c ++ text) := by
  unfold Json.escape
  split
  case h_8 _ hquote hslash _ _ _ _ _ =>
    split
    · rename_i hlow
      exact .code (unit?_hexDigit c.toNat hlow) h
    · rename_i hlow
      exact .plain hquote hslash hlow h
  all_goals exact .letter (by rfl) h

theorem unitsText_flatMap_escape (cs : List Char) :
    UnitsText (cs.map Char.toNat) (cs.flatMap escape) := by
  induction cs with
  | nil => exact .nil
  | cons c cs ih => exact ih.escape c

/-- No character is half of a surrogate pair. -/
theorem not_surrogate (c : Char) :
    isHighSurrogate c.toNat = false ∧ isLowSurrogate c.toNat = false := by
  have h := c.valid
  simp only [UInt32.isValidChar, Nat.isValidChar] at h
  have hn : c.val.toNat = c.toNat := rfl
  simp only [isHighSurrogate, isLowSurrogate, decide_eq_false_iff_not]
  omega

theorem join?_toNat (read cs : List Char) :
    join? read (cs.map Char.toNat) = some (read.reverse ++ cs) := by
  induction cs generalizing read with
  | nil => simp [join?]
  | cons c cs ih =>
    obtain ⟨hhigh, hlow⟩ := not_surrogate c
    cases cs with
    | nil => simp [join?, hhigh, hlow, Char.ofNat_toNat]
    | cons d ds =>
      have hrest := ih (c :: read)
      simp only [List.map_cons] at hrest ⊢
      simp [join?, hhigh, hlow, Char.ofNat_toNat, hrest]

theorem literalText_stringText (t : JsonString) : LiteralText t (stringText t) := by
  cases t with
  | some s => exact ⟨_, _, unitsText_flatMap_escape s.toList, by simp [join?_toNat], rfl⟩
  | none =>
    have hunit : unit? 'd' '8' '0' '0' = some 0xD800 := by decide
    exact ⟨[0xD800], _, .code hunit .nil, rfl, rfl⟩

/-! ### The grammar -/

def Blanks (s : List Char) : Prop := ∀ c ∈ s, isBlank c

/-- Blanks may stand in front and behind. -/
def Padded (inner : List Char → Prop) (text : List Char) : Prop :=
  ∃ front body behind, Blanks front ∧ inner body ∧ Blanks behind ∧ text = front ++ (body ++ behind)

mutual

/-- The text spells the value, from its first token to its last. -/
def Spells : Json → List Char → Prop
  | .null, text => text = ['n', 'u', 'l', 'l']
  | .bool true, text => text = ['t', 'r', 'u', 'e']
  | .bool false, text => text = ['f', 'a', 'l', 's', 'e']
  | .number n, text => NumberText n text
  | .string t, text => LiteralText t text
  | .array items, text => ∃ inner, SpellsItems items inner ∧ text = '[' :: (inner ++ [']'])
  | .object fields, text =>
    ∃ inner, SpellsFields fields inner ∧ text = '\x7b' :: (inner ++ ['\x7d'])

def SpellsItems : List Json → List Char → Prop
  | [], text => Blanks text
  | [item], text => Padded (Spells item) text
  | item :: items, text => ∃ first rest, Padded (Spells item) first ∧ SpellsItems items rest ∧
    text = first ++ ',' :: rest

def SpellsFields : List (JsonString × Json) → List Char → Prop
  | [], text => Blanks text
  | [(key, value)], text => ∃ name rest, Padded (LiteralText key) name ∧
    Padded (Spells value) rest ∧ text = name ++ ':' :: rest
  | (key, value) :: fields, text => ∃ name first rest, Padded (LiteralText key) name ∧
    Padded (Spells value) first ∧ SpellsFields fields rest ∧
    text = name ++ ':' :: (first ++ ',' :: rest)

end

/-! ### Tokens of a text -/

theorem lexOnto_blank {c : Char} (hc : isBlank c) (read : List Token) (s : List Char) :
    lexOnto read (c :: s) = lexOnto read s := by
  rw [lexOnto, if_pos hc]

theorem lexOnto_blanks {cs : List Char} (hcs : Blanks cs) (read : List Token)
    (s : List Char) : lexOnto read (cs ++ s) = lexOnto read s := by
  induction cs with
  | nil => rfl
  | cons c cs ih =>
    obtain ⟨hc, hcs⟩ := List.forall_mem_cons.1 hcs
    rw [List.cons_append, lexOnto_blank hc, ih hcs]

theorem lexOnto_token {c : Char} {s rest : List Char} {t : Token} (hc : isBlank c = false)
    (ht : token? c s = some (t, rest)) (read : List Token) :
    lexOnto read (c :: s) = lexOnto (t :: read) rest := by
  rw [lexOnto, if_neg (by simp [hc])]
  split
  · rename_i h
    rw [ht] at h
    cases h
    rfl
  · rename_i h
    rw [ht] at h
    cases h

theorem token?_of_number {c : Char} (hc : c = '-' ∨ isDigit c) (s : List Char) :
    token? c s = (numeral? (c :: s)).map fun (n, s) => (.number n, s) := by
  unfold token?
  split
  case h_11 => rfl
  all_goals exact absurd hc (by decide)

theorem stops_blanks {cs s : List Char} (hcs : Blanks cs) (hs : Stops continuesNumber s) :
    Stops continuesNumber (cs ++ s) := by
  cases cs with
  | nil => exact hs
  | cons c cs =>
    have hc := hcs c (by simp)
    simp only [isBlank, Bool.or_eq_true, beq_iff_eq] at hc
    apply stops_cons.2
    rcases hc with ((rfl | rfl) | rfl) | rfl <;> rfl

/-- The texts of this kind have these tokens, as long as nothing follows that a number could go on
with. -/
def Lexes (inner : List Char → Prop) (tokens : List Token) : Prop :=
  ∀ text, inner text → ∀ read s, Stops continuesNumber s →
    lexOnto read (text ++ s) = lexOnto (tokens.reverse ++ read) s

theorem lexes_literal (t : JsonString) : Lexes (LiteralText t) [.string t] := by
  intro text h read s _
  obtain ⟨body, rfl, hread⟩ := literal?_literalText h s
  exact lexOnto_token rfl (by simp [token?, hread]) read

theorem lexes_number (n : Numeral) : Lexes (NumberText n) [.number n] := by
  intro text h read s hs
  have hread := numeral?_numberText h hs
  obtain ⟨c, digits, rfl, hc⟩ := numberText_eq_cons h
  have hblank : isBlank c = false := by
    rw [← Bool.not_eq_true, isBlank]
    intro hblank
    simp only [Bool.or_eq_true, beq_iff_eq] at hblank
    rcases hblank with ((rfl | rfl) | rfl) | rfl <;> exact absurd hc (by decide)
  rw [List.cons_append] at hread ⊢
  exact lexOnto_token hblank (by rw [token?_of_number hc, hread]; rfl) read

theorem Lexes.padded {inner : List Char → Prop} {tokens : List Token} (h : Lexes inner tokens) :
    Lexes (Padded inner) tokens := by
  rintro text ⟨front, body, behind, hfront, hbody, hbehind, rfl⟩ read s hs
  rw [List.append_assoc, List.append_assoc, lexOnto_blanks hfront,
    h body hbody read _ (stops_blanks hbehind hs), lexOnto_blanks hbehind]

mutual

theorem lexes_spells : (v : Json) → Lexes (Spells v) v.tokens
  | .null, _, h, read, s, _ => by
    rw [Spells] at h
    subst h
    exact lexOnto_token rfl rfl read
  | .bool true, _, h, read, s, _ => by
    rw [Spells] at h
    subst h
    exact lexOnto_token rfl rfl read
  | .bool false, _, h, read, s, _ => by
    rw [Spells] at h
    subst h
    exact lexOnto_token rfl rfl read
  | .number n, text, h, read, s, hs => lexes_number n text (by rwa [Spells] at h) read s hs
  | .string t, text, h, read, s, hs => lexes_literal t text (by rwa [Spells] at h) read s hs
  | .array items, _, h, read, s, _ => by
    rw [Spells] at h
    obtain ⟨inner, hinner, rfl⟩ := h
    rw [List.cons_append, List.append_assoc, List.singleton_append, lexOnto_token rfl rfl,
      lexes_items items inner hinner _ _ (stops_cons.2 rfl), lexOnto_token rfl rfl]
    simp [tokens]
  | .object fields, _, h, read, s, _ => by
    rw [Spells] at h
    obtain ⟨inner, hinner, rfl⟩ := h
    rw [List.cons_append, List.append_assoc, List.singleton_append, lexOnto_token rfl rfl,
      lexes_fields fields inner hinner _ _ (stops_cons.2 rfl), lexOnto_token rfl rfl]
    simp [tokens]

theorem lexes_items : (items : List Json) → Lexes (SpellsItems items) (itemTokens items)
  | [], text, h, read, s, _ => by
    rw [SpellsItems] at h
    exact lexOnto_blanks h read s
  | [item], text, h, read, s, hs => by
    rw [SpellsItems] at h
    exact (lexes_spells item).padded text h read s hs
  | item :: next :: items, _, h, read, s, hs => by
    rw [SpellsItems] at h
    · obtain ⟨first, rest, hfirst, hrest, rfl⟩ := h
      rw [List.append_assoc, List.cons_append,
        (lexes_spells item).padded first hfirst _ _ (stops_cons.2 rfl), lexOnto_token rfl rfl,
        lexes_items (next :: items) rest hrest _ s hs]
      simp [itemTokens]
    · exact List.cons_ne_nil _ _

theorem lexes_fields : (fields : List (JsonString × Json)) →
    Lexes (SpellsFields fields) (fieldTokens fields)
  | [], text, h, read, s, _ => by
    rw [SpellsFields] at h
    exact lexOnto_blanks h read s
  | [(key, value)], _, h, read, s, hs => by
    rw [SpellsFields] at h
    obtain ⟨name, rest, hname, hrest, rfl⟩ := h
    rw [List.append_assoc, List.cons_append,
      (lexes_literal key).padded name hname _ _ (stops_cons.2 rfl), lexOnto_token rfl rfl,
      (lexes_spells value).padded rest hrest _ s hs]
    simp [fieldTokens]
  | (key, value) :: next :: fields, _, h, read, s, hs => by
    rw [SpellsFields] at h
    · obtain ⟨name, first, rest, hname, hfirst, hrest, rfl⟩ := h
      rw [List.append_assoc, List.cons_append, List.append_assoc, List.cons_append,
        (lexes_literal key).padded name hname _ _ (stops_cons.2 rfl), lexOnto_token rfl rfl,
        (lexes_spells value).padded first hfirst _ _ (stops_cons.2 rfl), lexOnto_token rfl rfl,
        lexes_fields (next :: fields) rest hrest _ s hs]
      simp [fieldTokens]
    · exact List.cons_ne_nil _ _

end

/-- A text that spells a value, perhaps between blanks, has the value's tokens. -/
theorem lex_spells {v : Json} {text : List Char} (h : Padded (Spells v) text) :
    lex text = some v.tokens := by
  have hlex := (lexes_spells v).padded text h [] [] (stops_nil _)
  rw [List.append_nil, List.append_nil] at hlex
  rw [lex, hlex, lexOnto, List.reverse_reverse]

/-! ### What is printed -/

/-- The style puts nothing but blanks between tokens. -/
structure Style.Blank (style : Style) : Prop where
  gap : ∀ depth, ∀ c ∈ style.gap depth, isBlank c
  afterColon : ∀ c ∈ style.afterColon, isBlank c

theorem Style.blank_compact : Style.compact.Blank :=
  ⟨by simp [Style.compact], by simp [Style.compact]⟩

theorem Style.blank_pretty : Style.pretty.Blank := by
  constructor
  · intro depth c hc
    rcases List.mem_cons.1 hc with rfl | hc
    · rfl
    · rw [List.eq_of_mem_replicate hc]
      rfl
  · intro c hc
    rw [List.mem_singleton.1 hc]
    rfl

/-- All numbers in the value are written the way the grammar asks. -/
def Proper (v : Json) : Prop := ∀ n, .number n ∈ v.tokens → n.Proper

section Render
variable {style : Style} (hstyle : style.Blank)

theorem padded_of_blanks {inner : List Char → Prop} {front body behind : List Char}
    (hfront : Blanks front) (hbody : inner body) (hbehind : Blanks behind) :
    Padded inner (front ++ (body ++ behind)) := ⟨_, _, _, hfront, hbody, hbehind, rfl⟩

theorem blanks_nil : Blanks [] := by simp [Blanks]

theorem padded_key (key : JsonString) {front : List Char} (hfront : Blanks front) :
    Padded (LiteralText key) (front ++ stringText key) := by
  have h := padded_of_blanks hfront (literalText_stringText key) blanks_nil
  rwa [List.append_nil] at h

include hstyle

mutual

theorem spells_render (depth : Nat) : (v : Json) → (∀ n, .number n ∈ v.tokens → n.Proper) →
    Spells v (v.render style depth)
  | .null, _ => by rw [Spells, render]
  | .bool true, _ => by rw [Spells, render]
  | .bool false, _ => by rw [Spells, render]
  | .number n, hv => by
    rw [Spells, render]
    exact numberText_text (hv n (by simp [tokens]))
  | .string t, _ => by
    rw [Spells, render]
    exact literalText_stringText t
  | .array [], _ => by
    rw [Spells, render]
    exact ⟨[], by rw [SpellsItems]; exact blanks_nil, rfl⟩
  | .array (item :: items), hv => by
    rw [Spells, render]
    refine ⟨_, spells_renderItems (depth + 1) (hstyle.gap depth) (item :: items) ?_, rfl⟩
    exact fun n hn => hv n (by simp [tokens, hn])
  | .object [], _ => by
    rw [Spells, render]
    exact ⟨[], by rw [SpellsFields]; exact blanks_nil, rfl⟩
  | .object (field :: fields), hv => by
    rw [Spells, render]
    refine ⟨_, spells_renderFields (depth + 1) (hstyle.gap depth) (field :: fields) ?_, rfl⟩
    exact fun n hn => hv n (by simp [tokens, hn])

theorem spells_renderItems (depth : Nat) {behind : List Char} (hbehind : Blanks behind) :
    (items : List Json) → (∀ n, .number n ∈ itemTokens items → n.Proper) →
      SpellsItems items (renderItems style depth items ++ behind)
  | [], _ => by
    rw [SpellsItems]
    exact hbehind
  | [item], hv => by
    rw [SpellsItems, renderItems, List.append_assoc]
    exact padded_of_blanks (hstyle.gap depth) (spells_render depth item hv) hbehind
  | item :: next :: items, hv => by
    have hfirst : Padded (Spells item) (style.gap depth ++ item.render style depth) := by
      have h := padded_of_blanks (hstyle.gap depth)
        (spells_render depth item fun n hn => hv n (by simp [itemTokens, hn])) blanks_nil
      rwa [List.append_nil] at h
    rw [SpellsItems, renderItems]
    · exact ⟨_, _, hfirst, spells_renderItems depth hbehind (next :: items)
        fun n hn => hv n (by simp [itemTokens, hn]), by simp⟩
    · exact List.cons_ne_nil _ _
    · exact List.cons_ne_nil _ _

theorem spells_renderFields (depth : Nat) {behind : List Char} (hbehind : Blanks behind) :
    (fields : List (JsonString × Json)) → (∀ n, .number n ∈ fieldTokens fields → n.Proper) →
      SpellsFields fields (renderFields style depth fields ++ behind)
  | [], _ => by
    rw [SpellsFields]
    exact hbehind
  | [(key, value)], hv => by
    rw [SpellsFields, renderFields]
    exact ⟨_, _, padded_key key (hstyle.gap depth), padded_of_blanks hstyle.afterColon
      (spells_render depth value fun n hn => hv n (by simp [fieldTokens, hn])) hbehind, by simp⟩
  | (key, value) :: next :: fields, hv => by
    have hfirst : Padded (Spells value) (style.afterColon ++ value.render style depth) := by
      have h := padded_of_blanks hstyle.afterColon
        (spells_render depth value fun n hn => hv n (by simp [fieldTokens, hn])) blanks_nil
      rwa [List.append_nil] at h
    rw [SpellsFields, renderFields]
    · exact ⟨_, _, _, padded_key key (hstyle.gap depth), hfirst,
        spells_renderFields depth hbehind (next :: fields)
          fun n hn => hv n (by simp [fieldTokens, hn]), by simp⟩
    · exact List.cons_ne_nil _ _
    · exact List.cons_ne_nil _ _

end

/-- The printed text of a value is one of its spellings. -/
theorem padded_render {v : Json} (hv : v.Proper) (depth : Nat) :
    Padded (Spells v) (v.render style depth) := by
  have h := padded_of_blanks blanks_nil (spells_render hstyle depth v hv) blanks_nil
  rwa [List.nil_append, List.append_nil] at h

end Render

end CallClusters.Json
