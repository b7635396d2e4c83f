import CallClusters.Word

/-! The exact value of a double-precision float, read off its bits. -/

namespace CallClusters

inductive Binary where
  | nan
  | infinite (negative : Bool)
  /-- The value `significand * 2 ^ power`, with its sign. -/
  | finite (negative : Bool) (significand : Nat) (power : Int)
  deriving DecidableEq

/-- Eleven bits of exponent stand above fifty-two of fraction; an exponent of all ones is no
number, and one of all zeros drops the leading bit. -/
def Binary.ofFloat (x : Float) : Binary :=
  let bits := x.toBits.toNat
  let negative := bits / twoTo 63 == 1
  let exponent : Nat := bits / twoTo 52 % twoTo 11
  let fraction := bits % twoTo 52
  if exponent = 2047 then if fraction = 0 then infinite negative else nan
  else if exponent = 0 then finite negative fraction (-1074)
  else finite negative (twoTo 52 + fraction) ((exponent : Int) - 1075)

end CallClusters
