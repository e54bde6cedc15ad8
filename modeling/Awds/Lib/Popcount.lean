import Mathlib.Algebra.Ring.Parity
import Mathlib.Data.Nat.BitIndices

/-!
# `Awds.Lib.Popcount`: the number of bits that are set

`x &&& (x - 1)` is `x` without its lowest bit that is set. A loop that takes such bits away
until none is left runs `popcount x` times.
-/

set_option autoImplicit false

namespace Awds.Lib

/-- How many bits of `n` are set. -/
def popcount (n : Nat) : Nat := n.bitIndices.length

/-- No bit of 0 is set. -/
@[simp] theorem popcount_zero : popcount 0 = 0 := by simp [popcount]

/-- A zero at the end adds nothing. -/
@[simp] theorem popcount_two_mul (n : Nat) : popcount (2 * n) = popcount n := by
  simp [popcount]

/-- A one at the end adds one. -/
@[simp] theorem popcount_two_mul_add_one (n : Nat) :
    popcount (2 * n + 1) = popcount n + 1 := by
  simp [popcount]

/-- The lowest bit of an odd number is the first. -/
theorem and_pred_odd (n : Nat) : (2 * n + 1) &&& (2 * n) = 2 * n := by
  refine Nat.eq_of_testBit_eq fun i => ?_
  cases i with
  | zero => simp
  | succ i =>
    have hhalf : (2 * n + 1) / 2 = n := by omega
    rw [Nat.testBit_and, Nat.testBit_succ, Nat.testBit_succ, hhalf]
    simp

/-- The lowest bit of an even number is that of its half. -/
theorem and_pred_even (n : Nat) :
    (2 * n) &&& (2 * n - 1) = 2 * (n &&& (n - 1)) := by
  refine Nat.eq_of_testBit_eq fun i => ?_
  cases i with
  | zero => simp
  | succ i =>
    have hhalf : (2 * n - 1) / 2 = n - 1 := by omega
    rw [Nat.testBit_and, Nat.testBit_succ, Nat.testBit_succ, Nat.testBit_succ, hhalf]
    simp

/-- `n &&& (n - 1)` has one bit less. -/
theorem popcount_and_pred {n : Nat} (h : n ≠ 0) : popcount (n &&& (n - 1)) + 1 = popcount n := by
  induction n using Nat.strong_induction_on with
  | _ n ih =>
    rcases Nat.even_or_odd' n with ⟨k, rfl | rfl⟩
    · have hk : k ≠ 0 := by omega
      rw [and_pred_even, popcount_two_mul, popcount_two_mul]
      exact ih k (by omega) hk
    · rw [Nat.add_sub_cancel, and_pred_odd, popcount_two_mul, popcount_two_mul_add_one]

/-- A positive number has a bit. -/
theorem popcount_pos {n : Nat} (h : n ≠ 0) : 0 < popcount n := by
  have hstep := popcount_and_pred h
  omega

/-- A number of `w` bits has at most `w` of them set. -/
theorem popcount_le {w n : Nat} (h : n < 2 ^ w) : popcount n ≤ w := by
  induction w generalizing n with
  | zero =>
    have hzero : n = 0 := by omega
    simp [hzero]
  | succ w ih =>
    rw [Nat.pow_succ] at h
    rcases Nat.even_or_odd' n with ⟨k, rfl | rfl⟩
    · rw [popcount_two_mul]
      exact (ih (by omega)).trans (Nat.le_succ w)
    · rw [popcount_two_mul_add_one]
      exact Nat.succ_le_succ (ih (by omega))

end Awds.Lib
