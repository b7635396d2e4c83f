import CallClusters.Number
import Mathlib.Algebra.BigOperators.Group.List.Basic
import Mathlib.Algebra.GroupWithZero.Nat
import Mathlib.Algebra.Ring.Rat

/-! Exact sums: over the rationals, where a sum starts makes no difference. -/

namespace CallClusters

theorem total_eq_sum (ns : List Nat) : total ns = ns.sum := by
  induction ns with
  | nil => rfl
  | cons n ns ih => rw [total, ih, List.sum_cons]

namespace Number

theorem sum_eq (xs : List Rat) : sum xs = xs.sum := List.sum_eq_foldl.symm

theorem tally_eq (xs : List Rat) : tally xs = xs.sum := List.sum_eq_foldl.symm

end Number

end CallClusters
