import Mathlib.Algebra.Order.Group.Int
import Mathlib.Data.Int.Basic

/-!
# `Awds.Lib.Bisection`: binary search between signed bounds

A search for `x` in a family of entries between the bounds `a` and `b`, which looks at the entry
in the middle and goes on to the right or to the left of it. The middle is rounded towards zero,
as a signed division does.

`Bisects inside entry x n a b found` is a derivation of a search that ends after `n` turns, in
which every entry that is looked at is `inside`. A search that does not end, or that looks at
another entry, has no derivation.

* `bisects_of_le`: with bounds in the right order the search ends.
* `Bisects.spec`: in ascending entries it finds what is there.
* `LeftTurn.bisects`: with a lower bound of -1 it ends if it comes to an entry on the way down
  that is not greater than `x`, and by `Bisects.leftTurn` only then.
-/

set_option autoImplicit false

namespace Awds.Lib

/-- The middle of two bounds, rounded towards zero. -/
def middle (a b : Int) : Int := Int.tdiv (a + b) 2

theorem middle_of_nonneg {a b : Int} (h : 0 ≤ a + b) : middle a b = (a + b) / 2 :=
  Int.tdiv_eq_ediv_of_nonneg h

/-- The middle of a sum that is negative is not behind half of it, rounded up. -/
theorem middle_of_neg {a b : Int} (h : a + b < 0) : middle a b = -(-(a + b) / 2) := by
  have hneg := Int.neg_tdiv (-(a + b)) 2
  rw [Int.neg_neg, Int.tdiv_eq_ediv_of_nonneg (a := -(a + b)) (by omega)] at hneg
  exact hneg

variable {α : Type} [LinearOrder α]

/-- A search that ends. -/
inductive Bisects (inside : Int → Prop) (entry : Int → α) (x : α) :
    Nat → Int → Int → Bool → Prop
  | absent (a : Int) : Bisects inside entry x 0 a a false
  | found {a b : Int} (turn : a ≠ b) (ok : inside (middle a b)) (eq : entry (middle a b) = x) :
      Bisects inside entry x 1 a b true
  | right {n : Nat} {a b : Int} {v : Bool} (turn : a ≠ b) (ok : inside (middle a b))
      (lt : entry (middle a b) < x) (rest : Bisects inside entry x n (middle a b + 1) b v) :
      Bisects inside entry x (n + 1) a b v
  | left {n : Nat} {a b : Int} {v : Bool} (turn : a ≠ b) (ok : inside (middle a b))
      (gt : x < entry (middle a b)) (rest : Bisects inside entry x n a (middle a b) v) :
      Bisects inside entry x (n + 1) a b v

section Search

variable {inside : Int → Prop} {entry : Int → α} {x : α} {n : Nat} {a b : Int} {v : Bool}

/-- A search looks at its first entry. -/
theorem Bisects.first (h : Bisects inside entry x n a b v) (hne : a ≠ b) :
    inside (middle a b) := by
  cases h with
  | absent => exact absurd rfl hne
  | found _ ok _ => exact ok
  | right _ ok _ _ => exact ok
  | left _ ok _ _ => exact ok

/-- A search between bounds in the right order ends, and closes in with every turn. -/
theorem bisects_of_le (inside : Int → Prop) (entry : Int → α) (x : α) (ha : 0 ≤ a)
    (hab : a ≤ b) (hinside : ∀ i, a ≤ i → i < b → inside i) :
    ∃ n v, n ≤ (b - a).toNat ∧ Bisects inside entry x n a b v := by
  -- Induction on the distance of the bounds.
  induction hd : (b - a).toNat using Nat.strong_induction_on generalizing a b with
  | _ d ih =>
    by_cases hne : a = b
    · subst hne
      exact ⟨0, false, by omega, .absent a⟩
    have hmid := middle_of_nonneg (a := a) (b := b) (by omega)
    have hok : inside (middle a b) := hinside _ (by omega) (by omega)
    rcases lt_trichotomy (entry (middle a b)) x with hlt | heq | hgt
    · obtain ⟨n, v, hn, hrest⟩ := ih (b - (middle a b + 1)).toNat (by omega) (a := middle a b + 1)
        (b := b) (by omega) (by omega) (fun i hi hib => hinside i (by omega) hib) rfl
      exact ⟨n + 1, v, by omega, .right hne hok hlt hrest⟩
    · exact ⟨1, true, by omega, .found hne hok heq⟩
    · obtain ⟨n, v, hn, hrest⟩ := ih (middle a b - a).toNat (by omega) (a := a)
        (b := middle a b) ha (by omega) (fun i hi hib => hinside i hi (by omega)) rfl
      exact ⟨n + 1, v, by omega, .left hne hok hgt hrest⟩

/-- In ascending entries a search finds what is between the bounds. -/
theorem Bisects.spec (h : Bisects inside entry x n a b v) (ha : 0 ≤ a) (hab : a ≤ b)
    (hasc : ∀ i j, a ≤ i → i < j → j < b → entry i < entry j) :
    v = true ↔ ∃ i, a ≤ i ∧ i < b ∧ entry i = x := by
  induction h with
  | absent a =>
    simp only [Bool.false_eq_true, false_iff]
    rintro ⟨i, hi, hib, -⟩
    omega
  | @found a b turn ok eq =>
    have hmid := middle_of_nonneg (a := a) (b := b) (by omega)
    exact iff_of_true rfl ⟨_, by omega, by omega, eq⟩
  | @right n a b v turn ok lt rest ih =>
    have hmid := middle_of_nonneg (a := a) (b := b) (by omega)
    rw [ih (by omega) (by omega) fun i j hi hij hj => hasc i j (by omega) hij hj]
    constructor
    · rintro ⟨i, hi, hib, heq⟩
      exact ⟨i, by omega, hib, heq⟩
    · rintro ⟨i, hi, hib, heq⟩
      refine ⟨i, ?_, hib, heq⟩
      -- An entry up to the middle is smaller than `x`.
      by_contra hle
      rcases Int.lt_or_eq_of_le (show i ≤ middle a b by omega) with hlt | rfl
      · exact absurd heq ((hasc i _ hi hlt (by omega)).trans lt).ne
      · exact absurd heq lt.ne
  | @left n a b v turn ok gt rest ih =>
    have hmid := middle_of_nonneg (a := a) (b := b) (by omega)
    rw [ih ha (by omega) fun i j hi hij hj => hasc i j hi hij (by omega)]
    constructor
    · rintro ⟨i, hi, hib, heq⟩
      exact ⟨i, hi, by omega, heq⟩
    · rintro ⟨i, hi, hib, heq⟩
      refine ⟨i, hi, ?_, heq⟩
      -- An entry from the middle on is greater than `x`.
      by_contra hge
      rcases Int.lt_or_eq_of_le (show middle a b ≤ i by omega) with hlt | rfl
      · exact absurd heq (gt.trans (hasc _ i (by omega) hlt hib)).ne'
      · exact absurd heq gt.ne'

/-! ### A lower bound in front of the entries -/

/-- The entry `m` is one of those that a search from the bounds -1 and `b` looks at as long as
it goes to the left. -/
inductive LeftTurn : Int → Int → Prop
  | first (b : Int) : LeftTurn b (middle (-1) b)
  | next {b m : Int} (rest : LeftTurn (middle (-1) b) m) : LeftTurn b m

/-- With the bounds 1 and -1 a search for more than the first entry turns on the spot. -/
theorem not_bisects_one (hlt : entry 0 < x) : ¬Bisects inside entry x n 1 (-1) v := by
  have hmid : middle 1 (-1) = 0 := rfl
  intro h
  generalize hb : (-1 : Int) = b at h
  generalize ha : (1 : Int) = a at h
  induction h with
  | absent => omega
  | found _ _ eq =>
    rw [← ha, ← hb, hmid] at eq
    exact hlt.ne eq
  | right _ _ _ _ ih => exact ih hb (by rw [← ha, ← hb, hmid]; rfl)
  | left _ _ gt _ _ =>
    rw [← ha, ← hb, hmid] at gt
    exact lt_asymm hlt gt

/-- A search between 0 and -1 that ends has not gone on to the right of the first entry. -/
theorem Bisects.le_first (h : Bisects inside entry x n 0 (-1) v) : x ≤ entry 0 := by
  have hmid : middle 0 (-1) = 0 := rfl
  by_contra hlt
  cases h with
  | found _ _ eq => exact hlt (hmid ▸ eq).ge
  | right _ _ _ rest => exact not_bisects_one (not_le.mp hlt) (hmid ▸ rest)
  | left _ _ gt _ => exact hlt (hmid ▸ gt).le

/-- It ends if the first entry is not smaller. -/
theorem bisects_of_le_first (inside : Int → Prop) (entry : Int → α) (x : α) (h0 : inside 0)
    (hle : x ≤ entry 0) :
    ∃ n v, n ≤ 1 ∧ Bisects inside entry x n 0 (-1) v := by
  have hmid : middle 0 (-1) = 0 := rfl
  have hne : (0 : Int) ≠ -1 := by decide
  rcases hle.eq_or_lt with heq | hgt
  · exact ⟨1, true, le_rfl, .found hne (hmid.symm ▸ h0) (hmid.symm ▸ heq.symm)⟩
  · have hrest : Bisects inside entry x 0 0 (middle 0 (-1)) false := hmid.symm ▸ .absent 0
    exact ⟨1, false, le_rfl, .left hne (hmid.symm ▸ h0) (hmid.symm ▸ hgt) hrest⟩

/-- A search from a lower bound of -1 that ends has come to an entry that is not greater. -/
theorem Bisects.leftTurn (h : Bisects inside entry x n (-1) b v) (hb : 0 ≤ b) :
    ∃ m, LeftTurn b m ∧ entry m ≤ x := by
  generalize ha : (-1 : Int) = a at h
  induction h with
  | absent => omega
  | @found a b _ _ eq =>
    subst ha
    exact ⟨_, .first b, eq.le⟩
  | @right n a b v _ _ lt _ _ =>
    subst ha
    exact ⟨_, .first b, lt.le⟩
  | @left n a b v _ _ _ _ ih =>
    subst ha
    have hmid : 0 ≤ middle (-1) b := by
      by_cases h0 : b = 0
      · subst h0
        decide
      · have := middle_of_nonneg (a := -1) (b := b) (by omega)
        omega
    obtain ⟨m, hm, hle⟩ := ih hmid rfl
    exact ⟨m, .next hm, hle⟩

/-- Between -1 and 0 there is the first entry only. -/
theorem LeftTurn.eq_zero {m : Int} (h : LeftTurn b m) (hb : b = 0) : m = 0 := by
  induction h with
  | first b => subst hb; rfl
  | next _ ih => exact ih (by subst hb; rfl)

/-- A search from a lower bound of -1 that comes to such an entry ends. -/
theorem LeftTurn.bisects {m : Int} (h : LeftTurn b m) (inside : Int → Prop) (entry : Int → α)
    (x : α) (hle : entry m ≤ x) (hb : 1 ≤ b)
    (hinside : ∀ i, 0 ≤ i → i < b → inside i) :
    ∃ n v, n ≤ (b + 1).toNat ∧ Bisects inside entry x n (-1) b v := by
  -- From an entry that is smaller the search goes on between bounds in the right order.
  have hright : ∀ b, 1 ≤ b → (∀ i, 0 ≤ i → i < b → inside i) → entry (middle (-1) b) ≤ x →
      ∃ n v, n ≤ (b + 1).toNat ∧ Bisects inside entry x n (-1) b v := by
    intro b hb hinside hle
    have hmid := middle_of_nonneg (a := -1) (b := b) (by omega)
    have hok : inside (middle (-1) b) := hinside _ (by omega) (by omega)
    rcases hle.eq_or_lt with heq | hlt
    · exact ⟨1, true, by omega, .found (by omega) hok heq⟩
    · obtain ⟨n, v, hn, hrest⟩ := bisects_of_le inside entry x (a := middle (-1) b + 1) (b := b)
        (by omega) (by omega) fun i hi hib => hinside i (by omega) hib
      exact ⟨n + 1, v, by omega, .right (by omega) hok hlt hrest⟩
  induction h with
  | first b => exact hright b hb hinside hle
  | @next b m rest ih =>
    rcases le_or_gt (entry (middle (-1) b)) x with hmle | hgt
    · exact hright b hb hinside hmle
    · have hmid := middle_of_nonneg (a := -1) (b := b) (by omega)
      have hpos : 1 ≤ middle (-1) b := by
        by_contra h0
        have hzero : middle (-1) b = 0 := by omega
        rw [rest.eq_zero hzero] at hle
        exact absurd hle (not_le.mpr (hzero ▸ hgt))
      obtain ⟨n, v, hn, hrest⟩ := ih hle hpos fun i hi hib => hinside i hi (by omega)
      exact ⟨n + 1, v, by omega, .left (by omega) (hinside _ (by omega) (by omega)) hgt hrest⟩

end Search

end Awds.Lib
