import CallClusters.Json.Value

/-! Values as text, either compact or spread over lines. -/

namespace CallClusters.Json

/-- What is written between tokens beyond the tokens themselves. -/
structure Style where
  /-- Before an item, a field or a closing bracket, at a depth of nesting. -/
  gap : Nat → List Char
  /-- Between a colon and the value behind it. -/
  afterColon : List Char

def Style.compact : Style := ⟨fun _ => [], []⟩

/-- Every item on a line of its own, two blanks further in than its bracket. -/
def Style.pretty : Style := ⟨fun depth => '\n' :: List.replicate (2 * depth) ' ', [' ']⟩

/-- Lower-case digits. -/
def hexDigit (n : Nat) : Char := if n < 10 then Char.ofNat (48 + n) else Char.ofNat (87 + n)

/-- The quote, the backslash and the characters below the blank are written as escapes, and by a
letter where they have one. -/
def escape (c : Char) : List Char :=
  match c with
  | '"' => ['\\', '"']
  | '\\' => ['\\', '\\']
  | '\x08' => ['\\', 'b']
  | '\x0c' => ['\\', 'f']
  | '\n' => ['\\', 'n']
  | '\r' => ['\\', 'r']
  | '\t' => ['\\', 't']
  | c => if c.toNat < 0x20 then ['\\', 'u', '0', '0', hexDigit (c.toNat / 16), hexDigit (c.toNat % 16)]
    else [c]

def quoted (s : String) : List Char := '"' :: (s.toList.flatMap escape ++ ['"'])

/-- A literal without a text is written as the escape of half a surrogate pair. -/
def stringText : JsonString → List Char
  | some s => quoted s
  | none => ['"', '\\', 'u', 'd', '8', '0', '0', '"']

mutual

/-- The text of a value that stands at the given depth. -/
def render (style : Style) (depth : Nat) : Json → List Char
  | .null => ['n', 'u', 'l', 'l']
  | .bool true => ['t', 'r', 'u', 'e']
  | .bool false => ['f', 'a', 'l', 's', 'e']
  | .number n => n.text
  | .string s => stringText s
  | .array [] => ['[', ']']
  | .array (item :: items) =>
    '[' :: renderItems style (depth + 1) (item :: items) ++ style.gap depth ++ [']']
  | .object [] => ['\x7b', '\x7d']
  | .object (field :: fields) =>
    '\x7b' :: renderFields style (depth + 1) (field :: fields) ++ style.gap depth ++ ['\x7d']

def renderItems (style : Style) (depth : Nat) : List Json → List Char
  | [] => []
  | [item] => style.gap depth ++ render style depth item
  | item :: items =>
    style.gap depth ++ render style depth item ++ ',' :: renderItems style depth items

def renderFields (style : Style) (depth : Nat) : List (JsonString × Json) → List Char
  | [] => []
  | [(key, value)] =>
    style.gap depth ++ stringText key ++ ':' :: style.afterColon ++ render style depth value
  | (key, value) :: fields =>
    style.gap depth ++ stringText key ++ ':' :: style.afterColon ++ render style depth value
      ++ ',' :: renderFields style depth fields

end

def compact (v : Json) : String := String.ofList (v.render .compact 0)

def pretty (v : Json) : String := String.ofList (v.render .pretty 0)

end CallClusters.Json
