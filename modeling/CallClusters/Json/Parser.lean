import CallClusters.Json.Lexer

/-! From tokens to a value. The brackets that are open form a stack; each token either finishes a
value, which then goes into the innermost open bracket, or opens one more. -/

namespace CallClusters.Json

/-- An open bracket, with what has been read in it in reverse. -/
inductive Frame where
  | items (done : List Json)
  /-- The value of `key` is still to come. -/
  | fields (done : List (JsonString × Json)) (key : JsonString)

mutual

/-- A value is due. -/
def parseValue (stack : List Frame) : List Token → Option Json
  | .null :: rest => parseAfter stack .null rest
  | .bool b :: rest => parseAfter stack (.bool b) rest
  | .number n :: rest => parseAfter stack (.number n) rest
  | .string s :: rest => parseAfter stack (.string s) rest
  | .openBracket :: .closeBracket :: rest => parseAfter stack (.array []) rest
  | .openBracket :: rest => parseValue (.items [] :: stack) rest
  | .openBrace :: .closeBrace :: rest => parseAfter stack (.object []) rest
  | .openBrace :: .string key :: .colon :: rest => parseValue (.fields [] key :: stack) rest
  | _ => none

/-- The value `v` has just ended. -/
def parseAfter (stack : List Frame) (v : Json) : List Token → Option Json
  | [] => if stack.isEmpty then some v else none
  | .comma :: .string key :: .colon :: rest =>
    match stack with
    | .fields done last :: stack => parseValue (.fields ((last, v) :: done) key :: stack) rest
    | _ => none
  | .comma :: rest =>
    match stack with
    | .items done :: stack => parseValue (.items (v :: done) :: stack) rest
    | _ => none
  | .closeBracket :: rest =>
    match stack with
    | .items done :: stack => parseAfter stack (.array (v :: done).reverse) rest
    | _ => none
  | .closeBrace :: rest =>
    match stack with
    | .fields done last :: stack => parseAfter stack (.object ((last, v) :: done).reverse) rest
    | _ => none
  | _ => none

end

/-- Reads a text that spells one value and nothing else. -/
def parse? (text : String) : Option Json := (lex text.toList).bind (parseValue [])

end CallClusters.Json
