/-! Written decimal numbers: digits, perhaps a point, perhaps a power of ten. -/

namespace CallClusters

structure Numeral where
  negative : Bool
  whole : List Char
  /-- The digits after the point; there is no point when there are none. -/
  fraction : List Char
  /-- Whether the power is negative, and its digits. -/
  exponent : Option (Bool × List Char)
  deriving DecidableEq

namespace Numeral

/-- The sign of an exponent is always written. -/
def text (n : Numeral) : List Char :=
  (if n.negative then ['-'] else []) ++ n.whole
    ++ (if n.fraction.isEmpty then [] else '.' :: n.fraction)
    ++ match n.exponent with
      | none => []
      | some (negative, digits) => 'e' :: (if negative then '-' else '+') :: digits

def digits (n : Nat) : List Char := Nat.toDigits 10 n

def ofNat (n : Nat) : Numeral := ⟨false, digits n, [], none⟩

def digitValue (c : Char) : Nat := c.toNat - '0'.toNat

/-- The number that digits write. -/
def value (digits : List Char) : Nat := digits.foldl (fun n c => 10 * n + digitValue c) 0

/-- The digits with the point moved `places` to the left, and zeros where none are left. -/
def shifted (negative : Bool) (digits : List Char) (places : Nat) : Numeral :=
  if digits.length ≤ places then
    ⟨negative, ['0'], List.replicate (places - digits.length) '0' ++ digits, none⟩
  else
    ⟨negative, digits.take (digits.length - places), digits.drop (digits.length - places), none⟩

/-- The digits times a power of ten, written without an exponent. -/
def positional (negative : Bool) (digits : List Char) (power : Int) : Numeral :=
  match power with
  | .ofNat n => ⟨negative, digits ++ List.replicate n '0', [], none⟩
  | .negSucc n => shifted negative digits (n + 1)

/-- The digits times a power of ten, with one digit before the point. -/
def scientific (negative : Bool) (digits : List Char) (power : Int) : Numeral :=
  let lead := power + digits.length - 1
  ⟨negative, digits.take 1, digits.drop 1, some (decide (lead < 0), Numeral.digits lead.natAbs)⟩

end Numeral

end CallClusters
