import CallClusters.Decimal.Format

/-! JSON values and the tokens that spell them. The fields of an object keep their order and may
repeat a key; a number keeps its digits. -/

namespace CallClusters

/-- The content of a string literal; `none` if an escape in it names half of a surrogate pair,
which no text can hold. -/
abbrev JsonString := Option String

inductive Json where
  | null
  | bool (b : Bool)
  | number (n : Numeral)
  | string (s : JsonString)
  | array (items : List Json)
  | object (fields : List (JsonString × Json))

namespace Json

def text (s : String) : Json := .string (some s)

def nat (n : Nat) : Json := .number (.ofNat n)

/-- Infinities and NaN have no numeral in JSON. -/
def float (x : Float) : Json :=
  match Binary.ofFloat x with
  | .finite negative significand power =>
    .number (FloatFormat.json.numeral negative significand power)
  | _ => .null

/-- An object with plain keys. -/
def record (fields : List (String × Json)) : Json :=
  .object (fields.map fun (key, value) => (some key, value))

/-! ### Tokens -/

inductive Token where
  | openBracket | closeBracket | openBrace | closeBrace | comma | colon
  | null
  | bool (b : Bool)
  | number (n : Numeral)
  | string (s : JsonString)
  deriving DecidableEq

mutual

/-- The tokens of a value, in the order in which they are written. -/
def tokens : Json → List Token
  | .null => [.null]
  | .bool b => [.bool b]
  | .number n => [.number n]
  | .string s => [.string s]
  | .array items => .openBracket :: itemTokens items ++ [.closeBracket]
  | .object fields => .openBrace :: fieldTokens fields ++ [.closeBrace]

def itemTokens : List Json → List Token
  | [] => []
  | [item] => item.tokens
  | item :: items => item.tokens ++ .comma :: itemTokens items

def fieldTokens : List (JsonString × Json) → List Token
  | [] => []
  | [(key, value)] => .string key :: .colon :: value.tokens
  | (key, value) :: fields => .string key :: .colon :: value.tokens ++ .comma :: fieldTokens fields

end

end Json

end CallClusters
