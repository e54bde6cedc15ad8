import Mathlib.Data.Nat.Bitwise
import Mathlib.Data.Nat.ModEq

/-!
# `Awds.Lib.SlidingWindow`: a word that remembers the last numbers

A receiver of numbered messages keeps a word of `w` bits. The bit `j`, counted from the most
significant one, says whether the number `j` places in front of the last one was received.
`Window.Records word last ns` says this for the list `ns` of the numbers that were received.

* `Records.advance`: a number that is `gap` places further is entered by a shift by `gap` and
  the most significant bit.
* `Records.advance_mod_iff`: what a shift by `gap % w` does instead, as a processor that looks
  at the low bits of a shift count only.
* `topOnes_lt_iff`: the comparison of the word with `k` ones on top.

`Window.Witnessed` is what is left when messages are lost, doubled or out of order and the shift
is that of a processor: every bit stands for a message that was received, if numbers are compared
modulo `w`. It needs no condition (`Witnessed.enter`), and `k` bits stand for `k` messages with
different numbers (`Witnessed.distinct`).
-/

set_option autoImplicit false

namespace Awds.Lib.Window

variable {w : Nat} {word : BitVec w} {last gap k : Nat} {ns : List Nat}

/-- The bits of the word say which of the last `w` numbers were received. -/
def Records (word : BitVec w) (last : Nat) (ns : List Nat) : Prop :=
  ∀ j < w, word.getMsbD j = true ↔ ∃ n ∈ ns, n + j = last

/-- The word behind a message, which is `gap` places behind the last one. -/
def enter (word : BitVec w) (gap : Nat) : BitVec w := (word >>> gap) ||| BitVec.intMin w

/-- The word with the first bit alone. -/
theorem getMsbD_intMin {j : Nat} (hw : 0 < w) : (BitVec.intMin w).getMsbD j = decide (j = 0) := by
  rw [BitVec.intMin, BitVec.getMsbD_twoPow]
  simp only [show w - 1 < w by omega, decide_true, Bool.true_and, decide_eq_decide]
  omega

/-- The bits of the new word. -/
theorem getMsbD_enter (word : BitVec w) (gap : Nat) {j : Nat} (hj : j < w) :
    (enter word gap).getMsbD j =
      (decide (gap ≤ j) && word.getMsbD (j - gap) || decide (j = 0)) := by
  rw [enter, BitVec.getMsbD_or, BitVec.getMsbD_ushiftRight, getMsbD_intMin (by omega)]
  have hle : (!decide (j < gap)) = decide (gap ≤ j) := by
    rw [← decide_not, decide_eq_decide, Nat.not_lt]
  simp [hj, hle]

/-- The first message. -/
theorem records_first (n : Nat) : Records (enter (0 : BitVec w) 0) n [n] := by
  intro j hj
  rw [getMsbD_enter _ _ hj]
  simp

/-- A shift by the whole gap keeps the record exact. -/
theorem Records.advance (h : Records word last ns) (hmax : ∀ n ∈ ns, n ≤ last) :
    Records (enter word gap) (last + gap) ((last + gap) :: ns) := by
  intro j hj
  rw [getMsbD_enter _ _ hj]
  by_cases hgap : gap ≤ j
  · -- The bit `j` of the new word is the bit `j - gap` of the old one.
    have hold := h (j - gap) (by omega)
    simp only [hgap, decide_true, Bool.true_and, Bool.or_eq_true, hold, decide_eq_true_eq,
      List.mem_cons, exists_eq_or_imp]
    constructor
    · rintro (⟨n, hn, hlast⟩ | rfl)
      · exact .inr ⟨n, hn, by omega⟩
      · exact .inl rfl
    · rintro (hself | ⟨n, hn, hlast⟩)
      · exact .inr (by omega)
      · exact .inl ⟨n, hn, by omega⟩
  · -- The numbers between the last one and the new one are not in the list.
    simp only [hgap, decide_false, Bool.false_and, Bool.false_or, decide_eq_true_eq,
      List.mem_cons, exists_eq_or_imp]
    constructor
    · rintro rfl
      exact .inl rfl
    · rintro (hself | ⟨n, hn, hlast⟩)
      · omega
      · have := hmax n hn
        omega

/-- A shift by `gap % w` keeps the record exact if the gap is smaller than the word, or if it is
a multiple of `w` and the word has nothing but the last number. -/
theorem Records.advance_mod_iff (hw : 0 < w) (h : Records word last ns)
    (hmax : ∀ n ∈ ns, n ≤ last) (hlast : last ∈ ns) :
    Records (enter word (gap % w)) (last + gap) ((last + gap) :: ns) ↔
      gap < w ∨ (gap % w = 0 ∧ ∀ n ∈ ns, n ≠ last → n + w ≤ last) := by
  by_cases hgap : gap < w
  · simp [hgap, Nat.mod_eq_of_lt hgap, h.advance hmax]
  have hmod : gap % w < w := Nat.mod_lt gap hw
  -- Only the new number is in the last `w` ones.
  have hnone : ∀ j < w, (∃ n ∈ (last + gap) :: ns, n + j = last + gap) ↔ j = 0 := by
    intro j hj
    constructor
    · rintro ⟨n, hn, hsum⟩
      rcases List.mem_cons.mp hn with rfl | hn
      · omega
      · have := hmax n hn
        omega
    · rintro rfl
      exact ⟨_, List.mem_cons_self, rfl⟩
  have hbit : word.getMsbD 0 = true := (h 0 hw).mpr ⟨last, hlast, rfl⟩
  simp only [hgap, false_or]
  constructor
  · intro hrec
    -- The bit of the last number is shifted to the place `gap % w`.
    have hzero : gap % w = 0 := by
      have hshift : (enter word (gap % w)).getMsbD (gap % w) = true := by
        rw [getMsbD_enter _ _ hmod]
        simp [hbit]
      exact (hnone _ hmod).mp ((hrec _ hmod).mp hshift)
    refine ⟨hzero, fun n hn hne => ?_⟩
    by_contra hnear
    have hle := hmax n hn
    have hj : last - n < w := by omega
    have hold : word.getMsbD (last - n) = true := (h _ hj).mpr ⟨n, hn, by omega⟩
    have hnew : (enter word (gap % w)).getMsbD (last - n) = true := by
      rw [getMsbD_enter _ _ hj, hzero]
      simp [hold]
    have := (hnone _ hj).mp ((hrec _ hj).mp hnew)
    omega
  · rintro ⟨hzero, hfar⟩ j hj
    rw [hnone j hj, getMsbD_enter _ _ hj, hzero]
    by_cases hj0 : j = 0
    · simp [hj0]
    · have hclear : word.getMsbD j = false := by
        rw [← Bool.not_eq_true, h j hj]
        rintro ⟨n, hn, hsum⟩
        have := hfar n hn (by omega)
        omega
      simp [hj0, hclear]

/-- The word with `k` ones on top. -/
def topOnes (w k : Nat) : Nat := 2 ^ w - 2 ^ (w - k)

/-- The bits from the front are the bits of the number from the top. -/
theorem getMsbD_eq_testBit {j : Nat} (hj : j < w) :
    word.getMsbD j = word.toNat.testBit (w - 1 - j) := by
  rw [BitVec.getMsbD_eq_getLsbD, BitVec.getLsbD]
  simp [hj]

/-- The first `k` bits are set. -/
theorem front_iff (hk : k ≤ w) :
    (∀ j < k, word.getMsbD j = true) ↔ word.toNat / 2 ^ (w - k) = 2 ^ k - 1 := by
  constructor
  · intro hbits
    refine Nat.eq_of_testBit_eq fun i => ?_
    rw [Nat.testBit_two_pow_sub_one, Nat.testBit_div_two_pow]
    by_cases hi : i < k
    · have hbit := hbits (k - 1 - i) (by omega)
      rw [getMsbD_eq_testBit (by omega), show w - 1 - (k - 1 - i) = i + (w - k) by omega] at hbit
      simp [hi, hbit]
    · have hbound : word.toNat < 2 ^ (i + (w - k)) :=
        lt_of_lt_of_le word.isLt (Nat.pow_le_pow_right (by omega) (by omega))
      simp [hi, Nat.testBit_lt_two_pow hbound]
  · intro hdiv j hj
    have hbit : (word.toNat / 2 ^ (w - k)).testBit (k - 1 - j) = true := by
      rw [hdiv, Nat.testBit_two_pow_sub_one]
      simp
      omega
    rw [Nat.testBit_div_two_pow] at hbit
    rw [getMsbD_eq_testBit (by omega), show w - 1 - j = k - 1 - j + (w - k) by omega]
    exact hbit

/-- A bit behind the first `k` ones is set. -/
theorem rest_iff (hk : k ≤ w) :
    (∃ j, k ≤ j ∧ j < w ∧ word.getMsbD j = true) ↔ word.toNat % 2 ^ (w - k) ≠ 0 := by
  constructor
  · rintro ⟨j, hkj, hjw, hbit⟩ hzero
    rw [getMsbD_eq_testBit hjw] at hbit
    have hmod : (word.toNat % 2 ^ (w - k)).testBit (w - 1 - j) = true := by
      rw [Nat.testBit_mod_two_pow, hbit]
      simp
      omega
    simp [hzero] at hmod
  · intro hne
    obtain ⟨i, hi⟩ := Nat.exists_testBit_of_ne_zero hne
    rw [Nat.testBit_mod_two_pow, Bool.and_eq_true, decide_eq_true_eq] at hi
    refine ⟨w - 1 - i, by omega, by omega, ?_⟩
    rw [getMsbD_eq_testBit (by omega), show w - 1 - (w - 1 - i) = i by omega]
    exact hi.2

/-- A number below `a * b` is greater than `a * b - b` exactly if its quotient by `b` is the
last one and its remainder is not zero. -/
theorem mul_sub_lt_iff {a b x : Nat} (hx : x < a * b) :
    a * b - b < x ↔ x / b = a - 1 ∧ x % b ≠ 0 := by
  have ha : 0 < a := Nat.pos_of_ne_zero (by rintro rfl; simp at hx)
  have hb : 0 < b := Nat.pos_of_ne_zero (by rintro rfl; simp at hx)
  obtain ⟨c, rfl⟩ : ∃ c, a = c + 1 := ⟨a - 1, by omega⟩
  rw [Nat.succ_mul] at hx ⊢
  rw [Nat.add_sub_cancel, Nat.add_sub_cancel]
  have hsplit := Nat.div_add_mod x b
  constructor
  · intro hlt
    have hdiv : x / b = c := Nat.div_eq_of_lt_le hlt.le (by rw [Nat.succ_mul]; exact hx)
    refine ⟨hdiv, fun hzero => ?_⟩
    rw [hdiv, hzero, Nat.mul_comm] at hsplit
    omega
  · rintro ⟨hdiv, hne⟩
    rw [hdiv, Nat.mul_comm] at hsplit
    omega

/-- A word is greater than the one with `k` ones on top exactly if its first `k` bits are set and
another one is. -/
theorem topOnes_lt_iff (hk : k ≤ w) : topOnes w k < word.toNat ↔
    (∀ j < k, word.getMsbD j = true) ∧ ∃ j, k ≤ j ∧ j < w ∧ word.getMsbD j = true := by
  have hpow : 2 ^ w = 2 ^ k * 2 ^ (w - k) := by
    rw [← Nat.pow_add]
    congr 1
    omega
  rw [front_iff hk, rest_iff hk, topOnes, hpow]
  exact mul_sub_lt_iff (hpow ▸ word.isLt)

/-! ### Messages in any order -/

section Witnessed

variable {α : Type} {num : α → Nat} {S S' : Set α}

/-- Every bit of the word stands for a message of `S`, whose number is as far behind `last` as
the bit is, modulo `w`. -/
def Witnessed (num : α → Nat) (word : BitVec w) (last : Nat) (S : Set α) : Prop :=
  ∀ j < w, word.getMsbD j = true → ∃ m ∈ S, (num m + j) % w = last % w

/-- The empty word stands for nothing. -/
theorem witnessed_zero (num : α → Nat) (last : Nat) (S : Set α) :
    Witnessed num (0 : BitVec w) last S := by
  intro j _ hbit
  simp at hbit

/-- A message is entered by a shift that is right modulo `w`, wherever its number lies. -/
theorem Witnessed.enter (h : Witnessed num word last S) (hsub : S ⊆ S') {m : α} (hm : m ∈ S')
    (hgap : (last + gap) % w = num m % w) :
    Witnessed num (Window.enter word gap) (num m) S' := by
  intro j hj hbit
  rw [getMsbD_enter word gap hj] at hbit
  by_cases hj0 : j = 0
  · exact ⟨m, hm, by rw [hj0, Nat.add_zero]⟩
  · simp only [hj0, decide_false, Bool.or_false, Bool.and_eq_true, decide_eq_true_eq] at hbit
    obtain ⟨m', hm', hlast⟩ := h (j - gap) (by omega) hbit.2
    refine ⟨m', hsub hm', ?_⟩
    rw [← hgap, show num m' + j = num m' + (j - gap) + gap by omega, Nat.add_mod, hlast,
      ← Nat.add_mod]

/-- More numbers are witnessed by a larger set. -/
theorem Witnessed.mono (h : Witnessed num word last S) (hsub : S ⊆ S') :
    Witnessed num word last S' := by
  intro j hj hbit
  obtain ⟨m, hm, hlast⟩ := h j hj hbit
  exact ⟨m, hsub hm, hlast⟩

/-- Two places that are the same modulo `w` from one number. -/
theorem place_unique {n i j : Nat} (hi : i < w) (hj : j < w) (h : (n + i) % w = (n + j) % w) :
    i = j := by
  have hmod : i % w = j % w := Nat.ModEq.add_left_cancel' n h
  rwa [Nat.mod_eq_of_lt hi, Nat.mod_eq_of_lt hj] at hmod

/-- Different bits stand for messages with different numbers. -/
theorem Witnessed.distinct (h : Witnessed num word last S) {js : List Nat} (hjs : js.Nodup)
    (hbits : ∀ j ∈ js, j < w ∧ word.getMsbD j = true) :
    ∃ ms : List α, ms.length = js.length ∧ (ms.map num).Nodup ∧
      ∀ m ∈ ms, m ∈ S ∧ ∃ j ∈ js, (num m + j) % w = last % w := by
  induction js with
  | nil => exact ⟨[], rfl, List.nodup_nil, by simp⟩
  | cons j js ih =>
    obtain ⟨hnot, hrest⟩ := List.nodup_cons.mp hjs
    obtain ⟨ms, hlen, hnodup, hms⟩ := ih hrest fun i hi => hbits i (List.mem_cons_of_mem j hi)
    obtain ⟨hj, hbit⟩ := hbits j List.mem_cons_self
    obtain ⟨m, hm, hlast⟩ := h j hj hbit
    refine ⟨m :: ms, by rw [List.length_cons, List.length_cons, hlen], ?_, ?_⟩
    · rw [List.map_cons]
      refine List.nodup_cons.mpr ⟨fun hmem => ?_, hnodup⟩
      -- the message of another bit has another number
      obtain ⟨m', hm', heq⟩ := List.mem_map.mp hmem
      obtain ⟨-, i, hi, hlast'⟩ := hms m' hm'
      rw [heq, ← hlast] at hlast'
      have hsame := place_unique (hbits i (List.mem_cons_of_mem j hi)).1 hj hlast'
      exact hnot (hsame ▸ hi)
    · intro m' hm'
      rcases List.mem_cons.mp hm' with rfl | hm'
      · exact ⟨hm, j, List.mem_cons_self, hlast⟩
      · obtain ⟨hS, i, hi, hlast'⟩ := hms m' hm'
        exact ⟨hS, i, List.mem_cons_of_mem j hi, hlast'⟩

end Witnessed

end Awds.Lib.Window
