import CallClusters.Json.Lexer

/-! Numbers in the spellings that the grammar allows. Each is read back with all its digits. -/

namespace CallClusters

/-- The digits of a number as the grammar allows them: none is missing, and no zero leads. -/
structure Numeral.Proper (n : Numeral) : Prop where
  whole : ∀ c ∈ n.whole, Json.isDigit c
  whole_ne_nil : n.whole ≠ []
  no_leading_zero : ∀ s, n.whole = '0' :: s → s = []
  fraction : ∀ c ∈ n.fraction, Json.isDigit c
  exponent : ∀ e ∈ n.exponent, e.2 ≠ [] ∧ ∀ c ∈ e.2, Json.isDigit c

namespace Numeral

theorem value_digits (n : Nat) : value (digits n) = n :=
  Nat.ofDigitChars_toDigits (by decide) (by decide)

/-- No number but zero is written with a zero in front. -/
theorem eq_nil_of_digits_eq {n : Nat} {s : List Char} (h : digits n = '0' :: s) : s = [] := by
  induction n using Nat.strongRecOn generalizing s with
  | ind n ih =>
    by_cases hn : n < 10
    · rw [digits, Nat.toDigits_of_lt_base hn] at h
      exact (List.cons.inj h).2.symm
    · have hsplit : digits n = digits (n / 10) ++ [(n % 10).digitChar] :=
        Nat.toDigits_of_base_le (by decide) (Nat.le_of_not_lt hn)
      cases hhigh : digits (n / 10) with
      | nil => exact absurd hhigh Nat.toDigits_ne_nil
      | cons c cs =>
        rw [hsplit, hhigh] at h
        obtain ⟨rfl, -⟩ := List.cons.inj h
        have hzero : digits (n / 10) = ['0'] := by rw [hhigh, ih (n / 10) (by omega) hhigh]
        have hvalue : 0 = n / 10 := by rw [← value_digits (n / 10), hzero]; rfl
        omega

theorem proper_ofNat (n : Nat) : (ofNat n).Proper where
  whole c hc := by
    have h := Nat.isDigit_of_mem_toDigits (by decide) (by decide) hc
    simpa [Json.isDigit, Char.isDigit, Char.le_def] using h
  whole_ne_nil := Nat.toDigits_ne_nil
  no_leading_zero _ := eq_nil_of_digits_eq
  fraction := by simp [ofNat]
  exponent := by simp [ofNat]

end Numeral

namespace Json

/-- The characters that a number can go on with. -/
def continuesNumber (c : Char) : Bool := isDigit c || c == '.' || c == 'e' || c == 'E'

/-- The text does not start with a character of that kind. -/
def Stops (kind : Char → Bool) (s : List Char) : Prop := ∀ c ∈ s.head?, kind c = false

theorem stops_nil (kind : Char → Bool) : Stops kind [] := by simp [Stops]

theorem stops_cons {kind : Char → Bool} {c : Char} {s : List Char} :
    Stops kind (c :: s) ↔ kind c = false := by simp [Stops]

theorem Stops.digit {s : List Char} (h : Stops continuesNumber s) : Stops isDigit s := by
  intro c hc
  have := h c hc
  simp only [continuesNumber, Bool.or_eq_false_iff] at this
  exact this.1.1.1

theorem takeWhile_digits {ds s : List Char} (hds : ∀ c ∈ ds, isDigit c) (hs : Stops isDigit s) :
    (ds ++ s).takeWhile isDigit = ds := by
  rw [List.takeWhile_append_of_pos hds]
  cases s with
  | nil => simp
  | cons c s => simp [stops_cons.1 hs]

theorem dropWhile_digits {ds s : List Char} (hds : ∀ c ∈ ds, isDigit c) (hs : Stops isDigit s) :
    (ds ++ s).dropWhile isDigit = s := by
  rw [List.dropWhile_append_of_pos hds]
  cases s with
  | nil => rfl
  | cons c s => simp [stops_cons.1 hs]

theorem digits?_append {ds s : List Char} (hne : ds ≠ []) (hds : ∀ c ∈ ds, isDigit c)
    (hs : Stops isDigit s) : digits? (ds ++ s) = some (ds, s) := by
  unfold digits?
  rw [takeWhile_digits hds hs, dropWhile_digits hds hs]
  cases ds with
  | nil => contradiction
  | cons d ds => rfl

theorem wholePart?_append {n : Numeral} (hn : n.Proper) {s : List Char} (hs : Stops isDigit s) :
    wholePart? (n.whole ++ s) = some (n.whole, s) := by
  unfold wholePart?
  rw [takeWhile_digits hn.whole hs, dropWhile_digits hn.whole hs]
  split
  · exact absurd ‹_› hn.whole_ne_nil
  · have := hn.no_leading_zero _ ‹_›
    cases this
  · rw [‹n.whole = _›]

/-! ### The parts of a written number -/

/-- The point and the digits after it. -/
def fractionText (n : Numeral) : List Char := if n.fraction.isEmpty then [] else '.' :: n.fraction

/-- An exponent in one of its spellings: its letter is small or large, and a plus is optional. -/
inductive ExponentText : Option (Bool × List Char) → List Char → Prop
  | none : ExponentText none []
  | some {letter : Char} {negative : Bool} {mark digits : List Char} (hletter : letter ∈ ['e', 'E'])
      (hmark : (negative, mark) ∈ [(true, ['-']), (false, ['+']), (false, [])]) :
      ExponentText (some (negative, digits)) (letter :: (mark ++ digits))

/-- A number in one of its spellings, which differ in the exponent alone. -/
structure NumberText (n : Numeral) (text : List Char) : Prop where
  proper : n.Proper
  parts : ∃ tail, ExponentText n.exponent tail ∧
    text = (if n.negative then ['-'] else []) ++ (n.whole ++ (fractionText n ++ tail))

/-- As it is printed, with a small letter and a sign. -/
theorem numberText_text {n : Numeral} (hn : n.Proper) : NumberText n n.text := by
  refine ⟨hn, ?_⟩
  unfold Numeral.text
  cases n.exponent with
  | none => exact ⟨_, .none, by simp only [fractionText, List.append_assoc]⟩
  | some e =>
    obtain ⟨negative, digits⟩ := e
    have hmark : (negative, [if negative then '-' else '+']) ∈
        [(true, ['-']), (false, ['+']), (false, [])] := by
      cases negative <;> decide
    exact ⟨_, .some List.mem_cons_self hmark, by
      simp only [fractionText, List.append_assoc, List.singleton_append]⟩

section Parts
variable {n : Numeral} {tail s : List Char}

theorem stops_exponentText {e : Option (Bool × List Char)} (htail : ExponentText e tail)
    (hs : Stops continuesNumber s) : Stops isDigit (tail ++ s) := by
  cases htail with
  | none => exact hs.digit
  | some hletter =>
    apply stops_cons.2
    revert hletter
    simp only [List.mem_cons, List.not_mem_nil, or_false]
    rintro (rfl | rfl) <;> rfl

theorem stops_fractionText (htail : ExponentText n.exponent tail) (hs : Stops continuesNumber s) :
    Stops isDigit (fractionText n ++ (tail ++ s)) := by
  unfold fractionText
  split
  · rw [List.nil_append]
    exact stops_exponentText htail hs
  · exact stops_cons.2 rfl

/-- The sign of an exponent, if there is one, stands before its digits. -/
theorem sign_mark {negative : Bool} {mark digits : List Char}
    (hmark : (negative, mark) ∈ [(true, ['-']), (false, ['+']), (false, [])]) (hne : digits ≠ [])
    (hdigits : ∀ c ∈ digits, isDigit c) :
    sign (mark ++ (digits ++ s)) = (negative, digits ++ s) := by
  simp only [List.mem_cons, Prod.mk.injEq, List.not_mem_nil, or_false] at hmark
  rcases hmark with ⟨rfl, rfl⟩ | ⟨rfl, rfl⟩ | ⟨rfl, rfl⟩
  · rfl
  · rfl
  · cases digits with
    | nil => exact absurd rfl hne
    | cons d digits =>
      have hd := hdigits d (by simp)
      simp only [List.nil_append, List.cons_append]
      unfold sign
      split
      · rename_i heq
        cases heq
        exact absurd hd (by decide)
      · rename_i heq
        cases heq
        exact absurd hd (by decide)
      · rfl

theorem exponentPart?_append (hn : n.Proper) (htail : ExponentText n.exponent tail)
    (hs : Stops continuesNumber s) : exponentPart? (tail ++ s) = some (n.exponent, s) := by
  have hdigits := hn.exponent
  revert htail hdigits
  generalize n.exponent = e
  intro htail hdigits
  cases htail with
  | none =>
    cases s with
    | nil => rfl
    | cons c s =>
      have hc := stops_cons.1 hs
      simp only [continuesNumber, Bool.or_eq_false_iff, beq_eq_false_iff_ne] at hc
      simp [exponentPart?, hc]
  | some hletter hmark =>
    obtain ⟨hne, hds⟩ := hdigits _ rfl
    have hread := digits?_append hne hds hs.digit
    rw [List.cons_append, List.append_assoc, exponentPart?, sign_mark hmark hne hds, hread,
      if_pos (by simpa using hletter), Option.map_some]

theorem fractionPart?_append (hn : n.Proper) (htail : ExponentText n.exponent tail)
    (hs : Stops continuesNumber s) :
    fractionPart? (fractionText n ++ (tail ++ s)) = some (n.fraction, tail ++ s) := by
  unfold fractionText
  cases hf : n.fraction with
  | nil =>
    have hpoint : ∀ t, tail ++ s ≠ '.' :: t := by
      intro t ht
      revert htail
      generalize n.exponent = e
      intro htail
      cases htail with
      | none =>
        rw [List.nil_append] at ht
        rw [ht] at hs
        exact absurd (stops_cons.1 hs) (by decide)
      | some hletter =>
        rw [List.cons_append, List.cons.injEq] at ht
        rw [ht.1] at hletter
        exact absurd hletter (by decide)
    simp only [List.isEmpty_nil, if_true, List.nil_append]
    unfold fractionPart?
    split
    · exact absurd ‹_› (hpoint _)
    · rfl
  | cons d ds =>
    have hds : ∀ c ∈ d :: ds, isDigit c := hf ▸ hn.fraction
    exact digits?_append (List.cons_ne_nil d ds) hds (stops_exponentText htail hs)

theorem unsigned?_append (hn : n.Proper) (htail : ExponentText n.exponent tail)
    (hs : Stops continuesNumber s) :
    unsigned? n.negative (n.whole ++ (fractionText n ++ (tail ++ s))) = some (n, s) := by
  simp only [unsigned?, wholePart?_append hn (stops_fractionText htail hs),
    fractionPart?_append hn htail hs, exponentPart?_append hn htail hs, Option.bind_eq_bind,
    Option.bind_some, Option.pure_def]

end Parts

/-- A number ends where no character follows that it could go on with. -/
theorem numeral?_numberText {n : Numeral} {text s : List Char} (hn : NumberText n text)
    (hs : Stops continuesNumber s) : numeral? (text ++ s) = some (n, s) := by
  obtain ⟨tail, htail, rfl⟩ := hn.parts
  have hread := unsigned?_append hn.proper htail hs
  simp only [List.append_assoc]
  cases hneg : n.negative with
  | true =>
    rw [hneg] at hread
    exact hread
  | false =>
    rw [hneg] at hread
    simp only [Bool.false_eq_true, if_false, List.nil_append]
    unfold numeral?
    split
    · rename_i s' heq
      cases hw : n.whole with
      | nil => exact absurd hw hn.proper.whole_ne_nil
      | cons d ds =>
        have hd := hn.proper.whole d (by simp [hw])
        rw [hw] at heq
        cases heq
        exact absurd hd (by decide)
    · exact hread

theorem numeral?_text {n : Numeral} (hn : n.Proper) {s : List Char}
    (hs : Stops continuesNumber s) : numeral? (n.text ++ s) = some (n, s) :=
  numeral?_numberText (numberText_text hn) hs

/-- A number starts with a minus or a digit. -/
theorem numberText_eq_cons {n : Numeral} {text : List Char} (hn : NumberText n text) :
    ∃ c s, text = c :: s ∧ (c = '-' ∨ isDigit c) := by
  obtain ⟨tail, -, rfl⟩ := hn.parts
  cases n.negative with
  | true => exact ⟨_, _, rfl, .inl rfl⟩
  | false =>
    cases hw : n.whole with
    | nil => exact absurd hw hn.proper.whole_ne_nil
    | cons d ds => exact ⟨d, _, rfl, .inr (hn.proper.whole d (by simp [hw]))⟩

end Json

end CallClusters
