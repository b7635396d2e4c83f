/-! The numbers that edge weights, averages and medians are made of. The program runs on
double-precision floats; the same definitions over the rationals are its exact arithmetic. -/

namespace CallClusters

class Number (W : Type) extends Add W, Sub W, Mul W, Div W where
  ofNat : Nat → W
  /-- Where a sum starts. -/
  emptySum : W
  isZero : W → Bool
  less : W → W → Bool

/-- The sum of counts. -/
def total : List Nat → Nat
  | [] => 0
  | n :: ns => n + total ns

namespace Number

/-- A float sum starts at minus zero, which leaves every first summand as it is. -/
instance : Number Float where
  ofNat := Float.ofNat
  emptySum := -0.0
  isZero x := x == 0.0
  less x y := decide (x < y)

instance : Number Rat where
  ofNat n := n
  emptySum := 0
  isZero x := x == 0
  less x y := decide (x < y)

variable {W : Type} [Number W]

/-- The summands are added from left to right. -/
def sum (xs : List W) : W := xs.foldl (· + ·) emptySum

/-- Adds up weights into a tally that starts at zero. -/
def tally (xs : List W) : W := xs.foldl (· + ·) (ofNat 0)

end Number

end CallClusters
