import Awds.SqrtInt
import Awds.Proofs.Routing.TopoPeriod

/-!
# `Awds.Proofs.SqrtInt`: the square root of every `long`

The machine's loop follows the loop over natural numbers, whose invariant is `isqrtLoop_spec`.
`BitsLeft s n remainder c` says that the three variables hold the numbers of the loop with `n` bits
left, of which `c` is the root of the bits that are done. All of them are below `2 ^ 63`, so the
signed comparison, the signed shifts and the difference are those of natural numbers.

* `turn_run`: one turn, without an overflow.
* `loop_run`: the loop ends behind `n` turns.
* `isqrt_run`: the result for every argument.
-/

set_option autoImplicit false

namespace Awds.Proofs

open Awds.AwdsRouting Awds.SqrtInt

/-! ### Values that are not negative -/

section

variable {a b : Long}

/-- Below 2^63 a machine word is not negative. -/
theorem msb_of_lt (h : a.toNat < 2 ^ 63) : a.msb = false := by
  rw [BitVec.msb_eq_false_iff_two_mul_lt]
  omega

/-- Below 2^63 the signed value is the unsigned one. -/
theorem toInt_of_lt (h : a.toNat < 2 ^ 63) : a.toInt = a.toNat :=
  BitVec.toInt_eq_toNat_of_msb (msb_of_lt h)

/-- A signed value that is not negative is below 2^63. -/
theorem lt_of_toInt_nonneg (h : 0 ≤ a.toInt) : a.toNat < 2 ^ 63 := by
  rw [BitVec.toInt_eq_toNat_cond] at h
  split at h
  · omega
  · have hlt := a.isLt
    omega

/-- The arithmetic shift of such a word is the logical one. -/
theorem toNat_sshiftRight (h : a.toNat < 2 ^ 63) (n : Nat) :
    (a.sshiftRight n).toNat = a.toNat >>> n := by
  rw [BitVec.sshiftRight_eq_of_msb_false (msb_of_lt h), BitVec.toNat_ushiftRight]

/-- The difference of two values that are not negative is a `long`. -/
theorem sub_run (ha : a.toNat < 2 ^ 63) (hle : b.toNat ≤ a.toNat) :
    sub a b = .ok (a - b) ∧ (a - b).toNat = a.toNat - b.toNat := by
  constructor
  · have hno : a.ssubOverflow b = false := by
      unfold BitVec.ssubOverflow
      rw [toInt_of_lt ha, toInt_of_lt (by omega)]
      simp only [Bool.or_eq_false_iff, decide_eq_false_iff_not]
      omega
    unfold sub
    rw [hno]
    rfl
  · exact BitVec.toNat_sub_of_le hle

end

/-! ### The loop -/

/-- The squared bit with `n` bits left. -/
def squaredbitOf : Nat → Nat
  | 0 => 0
  | n + 1 => 4 ^ n

/-- The first bit that the loop tries is the square of the highest bit of the root. -/
theorem firstBit_toNat : firstBit.toNat = squaredbitOf 32 := by decide

/-- The variables hold the numbers of the loop with `n` bits left. -/
structure BitsLeft (s : SqrtInt.State) (n remainder c : Nat) : Prop where
  squaredbit : s.squaredbit.toNat = squaredbitOf n
  rest : s.remainder.toNat = remainder
  root : s.root.toNat = c * 4 ^ n
  left : n ≤ 32
  small : remainder < 2 ^ 63
  done : c < 2 ^ (32 - n)

section

variable {s : SqrtInt.State} {n remainder c : Nat}

/-- Two places down is the square of the next bit. -/
theorem shiftRight_squaredbit (n : Nat) : 4 ^ n >>> 2 = squaredbitOf n := by
  cases n with
  | zero => rfl
  | succ n =>
    rw [Nat.shiftRight_eq_div_pow, pow_succ, Nat.mul_div_cancel _ (by decide), squaredbitOf]

/-- The squared bit and the root are below the sign bit. -/
theorem squaredbit_root_lt (hn : n ≤ 31) (hc : c < 2 ^ (31 - n)) :
    4 ^ n + c * 4 ^ (n + 1) < 2 ^ 63 := by
  rcases Nat.lt_or_ge n 31 with hlt | hge
  · have hlow : 4 ^ n < 4 ^ (n + 1) := Nat.pow_lt_pow_right (by decide) (Nat.lt_succ_self n)
    have hhigh : (c + 1) * 4 ^ (n + 1) ≤ 2 ^ 63 := by
      calc (c + 1) * 4 ^ (n + 1) ≤ 2 ^ (31 - n) * 4 ^ (n + 1) := Nat.mul_le_mul_right _ hc
        _ = 2 ^ (31 - n + 2 * (n + 1)) := by
          rw [pow_add 2, pow_mul 2 2]
          rfl
        _ ≤ 2 ^ 63 := Nat.pow_le_pow_right (by decide) (by omega)
    rw [Nat.succ_mul] at hhigh
    omega
  · -- the first turn: no bit of the root is known
    obtain rfl : n = 31 := by omega
    obtain rfl : c = 0 := by simpa using hc
    decide

/-- One turn of the loop in machine words is one turn of the loop in numbers. None of its operations
overflows: the root so far is below the square root of the part that was looked at. -/
theorem turn_run (h : BitsLeft s (n + 1) remainder c) : ∃ s' remainder' c', turn s = .ok s' ∧
    BitsLeft s' n remainder' c' ∧
      isqrtLoop (n + 1) remainder (c * 4 ^ (n + 1)) = isqrtLoop n remainder' (c' * 4 ^ n) := by
  have hn := h.left
  have hbit : s.squaredbit.toNat = 4 ^ n := h.squaredbit
  have hdone : c < 2 ^ (31 - n) := by
    have hc := h.done
    rwa [show 32 - (n + 1) = 31 - n by omega] at hc
  have hsum := squaredbit_root_lt (by omega) hdone
  -- The bounds that keep every word positive.
  have hdouble : 2 ^ (32 - n) = 2 * 2 ^ (31 - n) := by
    rw [← pow_succ']
    congr 1
    omega
  -- The two words have no bit in common, so `or` is a sum.
  have hor : (s.squaredbit ||| s.root).toNat = 4 ^ n + c * 4 ^ (n + 1) := by
    rw [BitVec.toNat_or, hbit, h.root, squaredbit_or]
  have hsquaredbit : (s.squaredbit.sshiftRight 2).toNat = squaredbitOf n := by
    rw [toNat_sshiftRight (by omega), hbit, shiftRight_squaredbit]
  have hroot : (s.root.sshiftRight 1).toNat = (c * 4 ^ (n + 1)) >>> 1 := by
    rw [toNat_sshiftRight (by rw [h.root]; omega), h.root]
  -- The comparison of the words is the one of the numbers.
  have hcond : (s.squaredbit ||| s.root).sle s.remainder = true ↔
      4 ^ n + c * 4 ^ (n + 1) ≤ remainder := by
    have hsmall := h.small
    rw [BitVec.sle_iff_toInt_le, toInt_of_lt (by omega), toInt_of_lt (by rw [h.rest]; omega),
      hor, h.rest, Int.ofNat_le]
  unfold turn
  rw [isqrtLoop]
  simp only [ge_iff_le, squaredbit_or]
  by_cases hle : 4 ^ n + c * 4 ^ (n + 1) ≤ remainder
  · -- the bit is one of the root
    obtain ⟨hrun, hdiff⟩ := sub_run (a := s.remainder) (b := s.squaredbit ||| s.root)
      (by rw [h.rest]; exact h.small) (by rw [hor, h.rest]; exact hle)
    rw [if_pos (hcond.mpr hle), if_pos hle, hrun]
    refine ⟨_, remainder - (4 ^ n + c * 4 ^ (n + 1)), 2 * c + 1, rfl, ⟨hsquaredbit, ?_, ?_, ?_, ?_,
      ?_⟩, ?_⟩
    · rw [hdiff, hor, h.rest]
    · rw [BitVec.toNat_or, hroot, hbit, root_or]
    · omega
    · have hsmall := h.small
      omega
    · omega
    · rw [root_or]
  · -- The bit is none of the root.
    rw [if_neg (mt hcond.mp hle), if_neg hle]
    refine ⟨_, remainder, 2 * c, rfl, ⟨hsquaredbit, h.rest, ?_, ?_, h.small, ?_⟩, ?_⟩
    · rw [hroot, root_shift]
    · omega
    · omega
    · rw [root_shift]

/-- The loop ends behind `n` turns. -/
theorem loop_run (h : BitsLeft s n remainder c) : ∃ r : Long, loop (n + 1) s = .ok r ∧
    r.toNat = isqrtLoop n remainder (c * 4 ^ n) ∧ r.toNat < 2 ^ 32 := by
  induction n generalizing s remainder c with
  | zero =>
    have hzero : s.squaredbit = 0 := BitVec.eq_of_toNat_eq h.squaredbit
    refine ⟨s.root, ?_, h.root, ?_⟩
    · rw [loop, hzero]
      rfl
    · have hdone := h.done
      rw [h.root]
      omega
  | succ n ih =>
    obtain ⟨s', remainder', c', hturn, hfollows, hloop⟩ := turn_run h
    obtain ⟨r, hrun, hr, hlt⟩ := ih hfollows
    refine ⟨r, ?_, hr.trans hloop.symm, hlt⟩
    have hbit : s.squaredbit.toNat = 4 ^ n := h.squaredbit
    have hpos : (0 : Long).slt s.squaredbit = true := by
      have hpow : 0 < 4 ^ n := Nat.pow_pos (by decide)
      have hsum := squaredbit_root_lt (c := 0) (n := n) (by have hn := h.left; omega)
        (Nat.pow_pos (by decide))
      rw [BitVec.slt_iff_toInt_lt, toInt_of_lt (a := s.squaredbit) (by omega), hbit]
      exact Int.natCast_pos.mpr hpow
    rw [loop, if_pos hpos, hturn]
    exact hrun

end

/-- The machine's `isqrt` ends behind 33 tests at most, without an overflow, and its result is the
integer square root: 0 for an argument below 1, and otherwise the root from below. -/
theorem isqrt_run (x : Long) : ∃ r : Long, SqrtInt.isqrt 33 x = .ok r ∧ 0 ≤ r.toInt ∧
    r.toInt = (AwdsRouting.isqrt x.toInt.toNat : Nat) ∧
    (x.toInt < 1 → r.toInt = 0) ∧
    (1 ≤ x.toInt → r.toInt * r.toInt ≤ x.toInt ∧ x.toInt < (r.toInt + 1) * (r.toInt + 1)) := by
  have hone : x.slt 1 = true ↔ x.toInt < 1 := BitVec.slt_iff_toInt_lt
  unfold SqrtInt.isqrt
  -- A number below one has the root zero.
  by_cases hx : x.toInt < 1
  · rw [if_pos (hone.mpr hx)]
    refine ⟨0, rfl, le_rfl, ?_, fun _ => rfl, fun h => absurd h (not_le.mpr hx)⟩
    rw [show x.toInt.toNat = 0 by omega]
    rfl
  · have hlt := lt_of_toInt_nonneg (a := x) (by omega)
    -- The loop starts with all bits left and no root.
    have hstart : BitsLeft ⟨firstBit, x, 0⟩ 32 x.toNat 0 :=
      ⟨firstBit_toNat, rfl, rfl, le_rfl, hlt, by decide⟩
    obtain ⟨r, hrun, hr, hsmall⟩ := loop_run hstart
    have hxnat : x.toInt = x.toNat := toInt_of_lt hlt
    have hrnat : r.toInt = r.toNat := toInt_of_lt (by omega)
    -- The word loop computes what the loop over numbers does, which is the square root.
    have hroot : r.toNat = AwdsRouting.isqrt x.toNat := by
      rw [hr, Nat.zero_mul, AwdsRouting.isqrt, if_neg (by omega)]
    have hsqrt : r.toNat = Nat.sqrt x.toNat := hroot.trans (isqrt_eq_sqrt (by omega))
    rw [if_neg (mt hone.mp hx)]
    refine ⟨r, hrun, by omega, ?_, fun h => absurd h hx, fun _ => ?_⟩
    · rw [hrnat, hroot, hxnat, Int.toNat_natCast]
    · rw [hrnat, hxnat, hsqrt]
      exact ⟨by exact_mod_cast Nat.sqrt_le x.toNat, by exact_mod_cast Nat.lt_succ_sqrt x.toNat⟩

end Awds.Proofs
