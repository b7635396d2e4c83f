import CallClusters.Json.Value

/-! From text to tokens. Blanks between tokens are skipped; whatever is no token makes the whole
text unreadable. -/

namespace CallClusters.Json

/-- Blank, tab and the two ends of line. -/
def isBlank (c : Char) : Bool := c == ' ' || c == '\t' || c == '\n' || c == '\r'

def isDigit (c : Char) : Bool := decide ('0' ≤ c ∧ c ≤ '9')

/-! ### Numbers -/

/-- A run of digits without a leading zero. -/
def wholePart? (s : List Char) : Option (List Char × List Char) :=
  match s.takeWhile isDigit with
  | [] => none
  | '0' :: _ :: _ => none
  | digit :: digits => some (digit :: digits, s.dropWhile isDigit)

/-- A run of at least one digit. -/
def digits? (s : List Char) : Option (List Char × List Char) :=
  match s.takeWhile isDigit with
  | [] => none
  | digit :: digits => some (digit :: digits, s.dropWhile isDigit)

def fractionPart? : List Char → Option (List Char × List Char)
  | '.' :: s => digits? s
  | s => some ([], s)

/-- Whether a minus is in front, and the text behind the sign. -/
def sign : List Char → Bool × List Char
  | '-' :: s => (true, s)
  | '+' :: s => (false, s)
  | s => (false, s)

/-- The sign of an exponent may be left out, its digits may not. -/
def exponentPart? : List Char → Option (Option (Bool × List Char) × List Char)
  | [] => some (none, [])
  | c :: s =>
    if c = 'e' || c = 'E' then
      (digits? (sign s).2).map fun (digits, rest) => (some ((sign s).1, digits), rest)
    else some (none, c :: s)

/-- A number of which the minus, if there was one, has been read. -/
def unsigned? (negative : Bool) (s : List Char) : Option (Numeral × List Char) := do
  let (whole, s) ← wholePart? s
  let (fraction, s) ← fractionPart? s
  let (exponent, s) ← exponentPart? s
  return (⟨negative, whole, fraction, exponent⟩, s)

def numeral? : List Char → Option (Numeral × List Char)
  | '-' :: s => unsigned? true s
  | s => unsigned? false s

/-! ### Strings -/

def hexValue? (c : Char) : Option Nat :=
  if '0' ≤ c ∧ c ≤ '9' then some (c.toNat - '0'.toNat)
  else if 'a' ≤ c ∧ c ≤ 'f' then some (c.toNat - 'a'.toNat + 10)
  else if 'A' ≤ c ∧ c ≤ 'F' then some (c.toNat - 'A'.toNat + 10)
  else none

/-- The unit that four hexadecimal digits name. -/
def unit? (a b c d : Char) : Option Nat := do
  return (((← hexValue? a) * 16 + (← hexValue? b)) * 16 + (← hexValue? c)) * 16 + (← hexValue? d)

/-- The character that a letter after a backslash stands for. -/
def unescape? : Char → Option Char
  | '"' => some '"'
  | '\\' => some '\\'
  | '/' => some '/'
  | 'b' => some '\x08'
  | 'f' => some '\x0c'
  | 'n' => some '\n'
  | 'r' => some '\r'
  | 't' => some '\t'
  | _ => none

/-- The units of a literal up to its closing quote, added to `read` in reverse, and the text
behind it. -/
def units? (read : List Nat) : List Char → Option (List Nat × List Char)
  | [] => none
  | '"' :: s => some (read.reverse, s)
  | '\\' :: 'u' :: a :: b :: c :: d :: s =>
    match unit? a b c d with
    | some u => units? (u :: read) s
    | none => none
  | '\\' :: c :: s =>
    match unescape? c with
    | some e => units? (e.toNat :: read) s
    | none => none
  | c :: s => if c.toNat < 0x20 || c = '\\' then none else units? (c.toNat :: read) s

def isHighSurrogate (u : Nat) : Bool := decide (0xD800 ≤ u ∧ u < 0xDC00)

def isLowSurrogate (u : Nat) : Bool := decide (0xDC00 ≤ u ∧ u < 0xE000)

/-- The characters of units, added to `read` in reverse: the halves of a surrogate pair stand side
by side and make one character. -/
def join? (read : List Char) : List Nat → Option (List Char)
  | [] => some read.reverse
  | [u] => if isHighSurrogate u || isLowSurrogate u then none else some (Char.ofNat u :: read).reverse
  | u :: v :: rest =>
    if isHighSurrogate u then
      if isLowSurrogate v then
        join? (Char.ofNat (0x10000 + (u - 0xD800) * 0x400 + (v - 0xDC00)) :: read) rest
      else none
    else if isLowSurrogate u then none
    else join? (Char.ofNat u :: read) (v :: rest)

/-- A literal whose opening quote has been read. -/
def literal? (s : List Char) : Option (JsonString × List Char) := do
  let (units, s) ← units? [] s
  return ((join? [] units).map String.ofList, s)

/-! ### All tokens -/

/-- The word `rest`, and the text behind it. -/
def word? (token : Token) (rest s : List Char) : Option (Token × List Char) :=
  if rest.isPrefixOf s then some (token, s.drop rest.length) else none

/-- The token that starts with `c`. -/
def token? (c : Char) (s : List Char) : Option (Token × List Char) :=
  match c with
  | '[' => some (.openBracket, s)
  | ']' => some (.closeBracket, s)
  | '{' => some (.openBrace, s)
  | '}' => some (.closeBrace, s)
  | ',' => some (.comma, s)
  | ':' => some (.colon, s)
  | '"' => (literal? s).map fun (text, s) => (.string text, s)
  | 'n' => word? .null ['u', 'l', 'l'] s
  | 't' => word? (.bool true) ['r', 'u', 'e'] s
  | 'f' => word? (.bool false) ['a', 'l', 's', 'e'] s
  | c => (numeral? (c :: s)).map fun (n, s) => (.number n, s)

/-! ### What is left behind a token is shorter -/

theorem length_takeWhile_add_dropWhile (s : List Char) :
    (s.takeWhile isDigit).length + (s.dropWhile isDigit).length = s.length := by
  rw [← List.length_append, List.takeWhile_append_dropWhile]

theorem wholePart?_shortens {s digits rest : List Char} (h : wholePart? s = some (digits, rest)) :
    rest.length < s.length := by
  have hs := length_takeWhile_add_dropWhile s
  unfold wholePart? at h
  split at h
  · cases h
  · cases h
  · rename_i hd
    cases h
    rw [hd, List.length_cons] at hs
    omega

theorem digits?_shortens {s digits rest : List Char} (h : digits? s = some (digits, rest)) :
    rest.length < s.length := by
  have hs := length_takeWhile_add_dropWhile s
  unfold digits? at h
  split at h
  · cases h
  · rename_i hd
    cases h
    rw [hd, List.length_cons] at hs
    omega

theorem fractionPart?_shortens {s digits rest : List Char}
    (h : fractionPart? s = some (digits, rest)) : rest.length ≤ s.length := by
  unfold fractionPart? at h
  split at h
  · exact Nat.le_succ_of_le (Nat.le_of_lt (digits?_shortens h))
  · cases h
    exact Nat.le_refl _

theorem length_sign_le (s : List Char) : (sign s).2.length ≤ s.length := by
  unfold sign
  split <;> simp

theorem exponentPart?_shortens {s rest : List Char} {e : Option (Bool × List Char)}
    (h : exponentPart? s = some (e, rest)) : rest.length ≤ s.length := by
  unfold exponentPart? at h
  split at h
  · cases h
    exact Nat.le_refl _
  · rename_i c s
    split at h
    · simp only [Option.map_eq_some_iff, Prod.mk.injEq, Prod.exists] at h
      obtain ⟨_, _, h, -, rfl⟩ := h
      have := digits?_shortens h
      have := length_sign_le s
      rw [List.length_cons]
      omega
    · cases h
      exact Nat.le_refl _

theorem unsigned?_shortens {negative : Bool} {s rest : List Char} {n : Numeral}
    (h : unsigned? negative s = some (n, rest)) : rest.length < s.length := by
  simp only [unsigned?, Option.bind_eq_bind, Option.bind_eq_some_iff, Option.pure_def,
    Option.some.injEq, Prod.mk.injEq, Prod.exists] at h
  obtain ⟨whole, s₁, h₁, fraction, s₂, h₂, e, s₃, h₃, -, rfl⟩ := h
  have h₁ := wholePart?_shortens h₁
  have h₂ := fractionPart?_shortens h₂
  have h₃ := exponentPart?_shortens h₃
  omega

theorem numeral?_shortens {s rest : List Char} {n : Numeral} (h : numeral? s = some (n, rest)) :
    rest.length < s.length := by
  unfold numeral? at h
  split at h
  · exact Nat.lt_succ_of_lt (unsigned?_shortens h)
  · exact unsigned?_shortens h

theorem units?_shortens {read units : List Nat} {s rest : List Char}
    (h : units? read s = some (units, rest)) : rest.length < s.length := by
  fun_induction units? read s with
  | case1 => cases h
  | case2 => cases h; simp
  | case3 read a b c d s u hu ih => have := ih h; simp; omega
  | case4 => cases h
  | case5 read c s e he hc ih => have := ih h; simp; omega
  | case6 => cases h
  | case7 => cases h
  | case8 read c s h₁ h₂ h₃ h₄ ih => have := ih h; simp; omega

theorem word?_shortens {t token : Token} {word s rest : List Char}
    (h : word? t word s = some (token, rest)) : rest.length ≤ s.length := by
  unfold word? at h
  split at h
  · cases h
    simp
  · cases h

theorem token?_shortens {c : Char} {s rest : List Char} {token : Token}
    (h : token? c s = some (token, rest)) : rest.length ≤ s.length := by
  unfold token? at h
  split at h
  case h_7 =>
    simp only [literal?, Option.map_eq_some_iff, Option.bind_eq_bind, Option.bind_eq_some_iff,
      Option.pure_def, Option.some.injEq, Prod.mk.injEq, Prod.exists] at h
    obtain ⟨_, _, ⟨_, _, h, -, rfl⟩, -, rfl⟩ := h
    exact Nat.le_of_lt (units?_shortens h)
  case h_8 => exact word?_shortens h
  case h_9 => exact word?_shortens h
  case h_10 => exact word?_shortens h
  case h_11 =>
    simp only [Option.map_eq_some_iff, Prod.mk.injEq, Prod.exists] at h
    obtain ⟨_, _, h, -, rfl⟩ := h
    exact Nat.le_of_lt_succ (numeral?_shortens h)
  all_goals
    cases h
    exact Nat.le_refl _

/-- The tokens of a text, added to `read` in reverse. -/
def lexOnto (read : List Token) : List Char → Option (List Token)
  | [] => some read.reverse
  | c :: s =>
    if isBlank c then lexOnto read s
    else match _h : token? c s with
      | some (token, rest) => lexOnto (token :: read) rest
      | none => none
termination_by s => s.length
decreasing_by
  · exact Nat.lt_succ_self _
  · exact Nat.lt_succ_of_le (token?_shortens ‹_›)

def lex (s : List Char) : Option (List Token) := lexOnto [] s

end CallClusters.Json
