import CallClusters.Json.Parser
import CallClusters.Word

/-! Reading values as data: scalars, lists, and records. A record is spelled as an object, in any
order and with unknown fields passed over, or as the array of its fields in their order. -/

namespace CallClusters.Json

def string? : Json → Option String
  | .string s => s
  | _ => none

def bool? : Json → Option Bool
  | .bool b => some b
  | _ => none

/-- A literal of digits alone, of a number below the bound. -/
def natBelow? (bound : Nat) : Json → Option Nat
  | .number ⟨false, whole, [], none⟩ =>
    if Numeral.value whole < bound then some (Numeral.value whole) else none
  | _ => none

/-- Counts fit 64 bits. -/
def count? : Json → Option Nat := natBelow? wordBound64

def word32? (j : Json) : Option UInt32 := (natBelow? wordBound32 j).map UInt32.ofNat

def array? : Json → Option (List Json)
  | .array items => some items
  | _ => none

def list? {α : Type} (read : Json → Option α) (j : Json) : Option (List α) := do
  (← j.array?).mapM read

/-- Null stands for the absence of a value. -/
def optional? {α : Type} (read : Json → Option α) : Json → Option (Option α)
  | .null => some none
  | j => (read j).map some

/-! ### Records -/

/-- The fields of a record that are given, without repetition. -/
abbrev Row := List (String × Json)

/-- The fields of an object by name. No key may be ill-formed. -/
def named? (fields : List (JsonString × Json)) : Option Row :=
  fields.mapM fun (key, value) => key.map (·, value)

/-- The given fields of a record with these field names. A known field must not be given twice.
An array gives the first fields, and at least `least` of them. -/
def row? (names : List String) (least : Nat) : Json → Option Row
  | .object fields => do
    let known := (← named? fields).filter fun field => names.contains field.1
    if (known.map Prod.fst).Nodup then some known else none
  | .array items =>
    if least ≤ items.length ∧ items.length ≤ names.length then some (names.zip items) else none
  | _ => none

namespace Row

variable {α : Type}

/-- A field that must be given. -/
def required? (row : Row) (name : String) (read : Json → Option α) : Option α :=
  (row.lookup name).bind read

/-- A field that has a default when it is not given. -/
def defaulted? (row : Row) (name : String) (default : α) (read : Json → Option α) : Option α :=
  match row.lookup name with
  | some value => read value
  | none => some default

/-- A field that may be null or not given. -/
def optional? (row : Row) (name : String) (read : Json → Option α) : Option (Option α) :=
  row.defaulted? name none (Json.optional? read)

end Row

/-! ### Floats -/

/-- Takes digits onto `w` while the number still fits 64 bits, and tells how many were taken. -/
def takeDigits (w : Nat) : List Char → Nat × Nat
  | [] => (w, 0)
  | c :: digits =>
    let next := 10 * w + Numeral.digitValue c
    if next < wordBound64 then
      let (w, taken) := takeDigits next digits
      (w, taken + 1)
    else (w, 0)

def powerOfTen (n : Nat) : Float := Float.ofScientific 1 false n

/-- Multiplies or divides once by a power of ten, after dividing by `10 ^ 308` as long as the
exponent lies further down. There is no value beyond the largest float. -/
def scaleByTen? (x : Float) (exponent : Int) : Option Float :=
  if exponent.natAbs ≤ 308 then
    if 0 ≤ exponent then
      let y := x * powerOfTen exponent.natAbs
      if y.isInf then none else some y
    else some (x / powerOfTen exponent.natAbs)
  else if x == 0.0 then some x
  else if 0 ≤ exponent then none
  else scaleByTen? (x / powerOfTen 308) (exponent + 308)
termination_by exponent.natAbs
decreasing_by omega

/-- The float that a numeral reads as: its first digits as far as they fit 64 bits, times a power
of ten, each step rounded. -/
def floatOf? (n : Numeral) : Option Float := do
  let (w, takenWhole) := takeDigits 0 n.whole
  let (w, takenFraction) := takeDigits w n.fraction
  let exponent : Int := match n.exponent with
    | none => 0
    | some (true, digits) => -(Numeral.value digits : Int)
    | some (false, digits) => Numeral.value digits
  let places : Int := (n.whole.length : Int) - takenWhole - takenFraction
  let x ← scaleByTen? (Float.ofNat w) (places + exponent)
  return if n.negative then -x else x

def float? : Json → Option Float
  | .number n => floatOf? n
  | _ => none

end CallClusters.Json
