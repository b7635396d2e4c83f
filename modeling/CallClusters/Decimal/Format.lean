import CallClusters.Decimal.Numeral
import CallClusters.Decimal.Shortest

/-! The texts of floats: in messages, with a fixed number of places, and in JSON. -/

namespace CallClusters

/-- How the shortest decimal of a float is laid out. -/
structure FloatFormat where
  tie : TieRule
  /-- Whether a number with this many digits before the point is written without an exponent; for
  a number below a tenth the count is negative. -/
  positional : Int → Bool
  /-- Whether a whole number without an exponent ends in `.0`. -/
  wholePoint : Bool

namespace FloatFormat

/-- In messages a number is written out, however long, and a whole one without a point. -/
def message : FloatFormat := ⟨.up, fun _ => true, false⟩

/-- In JSON the numbers from `0.00001` to below `10 ^ 16` are written out, and a point or an
exponent shows that a number is no integer. -/
def json : FloatFormat := ⟨.even, fun count => decide (-5 < count ∧ count ≤ 16), true⟩

/-- The numeral of a finite float. -/
def numeral (format : FloatFormat) (negative : Bool) (significand : Nat) (power : Int) :
    Numeral :=
  let (d, grid) := if significand = 0 then (0, 0) else Shortest.decimal format.tie significand power
  let digits := Numeral.digits d
  if format.positional (digits.length + grid) then
    let n := Numeral.positional negative digits grid
    if format.wholePoint && n.fraction.isEmpty then { n with fraction := ['0'] } else n
  else Numeral.scientific negative digits grid

end FloatFormat

/-- The numeral with exactly `places` digits after the point; a half goes to the even digit. -/
def fixedNumeral (places : Nat) (negative : Bool) (significand : Nat) (power : Int) : Numeral :=
  let scaled := TieRule.even.roundDiv (significand * twoTo power.toNat * tenTo places)
    (twoTo (-power).toNat)
  let digits := Numeral.digits scaled
  let padded := List.replicate (places + 1 - digits.length) '0' ++ digits
  Numeral.shifted negative padded places

/-- The text of a float whose finite values are written by `f`. -/
def floatText (f : Bool → Nat → Int → Numeral) (x : Float) : String :=
  match Binary.ofFloat x with
  | .nan => "NaN"
  | .infinite negative => if negative then "-inf" else "inf"
  | .finite negative significand power => String.ofList (f negative significand power).text

/-- A float as it stands in messages. -/
def messageText (x : Float) : String := floatText FloatFormat.message.numeral x

/-- A float with two places. -/
def twoPlaces (x : Float) : String := floatText (fixedNumeral 2) x

end CallClusters
