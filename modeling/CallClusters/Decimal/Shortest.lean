import CallClusters.Decimal.Binary

/-! The shortest decimal that reads back as a given float. The decimals that do are an interval
around the float's value; of the grids of multiples of a power of ten, the coarsest that meets the
interval is taken, and on it the point nearest to the value. -/

namespace CallClusters

/-- Which of two equally near neighbours is taken. -/
inductive TieRule where
  | up | even
  deriving DecidableEq

/-- The quotient rounded to the nearest integer. -/
def TieRule.roundDiv (tie : TieRule) (num den : Nat) : Nat :=
  let low := num / den
  let twice := 2 * (num % den)
  if twice < den then low
  else if twice > den then low + 1
  else match tie with
    | .up => low + 1
    | .even => low + low % 2

namespace Shortest

/-- A float's value and the ends of its interval, as multiples of `2 ^ power`. -/
structure Interval where
  low : Nat
  value : Nat
  high : Nat
  power : Int
  /-- Whether the ends belong to it. -/
  closed : Bool

/-- Halfway to the neighbouring floats, of which the one below a power of two is nearer. -/
def Interval.ofFinite (significand : Nat) (power : Int) : Interval where
  low := if significand = twoTo 52 && power > -1074 then 4 * significand - 1 else 4 * significand - 2
  value := 4 * significand
  high := 4 * significand + 2
  power := power - 2
  closed := significand % 2 == 0

/-- The numerator and denominator of `2 ^ power / 10 ^ grid`. -/
def ratio (power grid : Int) : Nat × Nat :=
  (twoTo power.toNat * tenTo (-grid).toNat, twoTo (-power).toNat * tenTo grid.toNat)

/-- The multiple of `10 ^ grid` in the interval that is nearest to the value. -/
def hit? (tie : TieRule) (i : Interval) (grid : Int) : Option Nat :=
  let (num, den) := ratio i.power grid
  let inside (d : Nat) : Bool :=
    if i.closed then decide (i.low * num ≤ d * den ∧ d * den ≤ i.high * num)
    else decide (i.low * num < d * den ∧ d * den < i.high * num)
  let below := i.value * num / den
  match inside below, inside (below + 1) with
  | true, true => some (tie.roundDiv (i.value * num) den)
  | true, false => some below
  | false, true => some (below + 1)
  | false, false => none

/-- Goes down from `grid` to the first grid with a hit, over at most `n` more grids. -/
def search (tie : TieRule) (i : Interval) : Nat → Int → Nat × Int
  | 0, grid =>
    let (num, den) := ratio i.power grid
    (tie.roundDiv (i.value * num) den, grid)
  | n + 1, grid =>
    match hit? tie i grid with
    | some d => (d, grid)
    | none => search tie i n (grid - 1)

/-- A power of ten above the interval. -/
def start (i : Interval) : Int := (i.high.log2 + i.power + 1) * 30103 / 100000 + 1

/-- The digits and the power of ten of the shortest decimal. Seventeen digits always suffice, and
the start is at most two grids above the first of them. -/
def decimal (tie : TieRule) (significand : Nat) (power : Int) : Nat × Int :=
  let i := Interval.ofFinite significand power
  search tie i 20 (start i)

end Shortest

end CallClusters
