import Awds.Crypto.Aes
import Awds.Lib.Aes
import Mathlib

/-!
# `Awds.Proofs.Crypto.Aes`: the tables compute AES

The vendored cipher works on words and tables, the cipher of `Awds.Lib.Aes` on bytes and the
field. The bridge is `bval`: for a fixed word it is a function from positions to bytes, that
is a `Word` of the library, and the words of a state are the columns of the library's state
(`columns`).

* `bval_bytes2word`, `bval_xor`: packing and adding words, byte by byte.
* `bval_fourTables_tFn`, `bval_fourTables_tFl`: what the tables hold.
* `columns_fwdRnd`, `columns_fwdLrnd`: a round of the code is a round of the cipher.
* `Expanded`: the invariant of the key schedule, with one step in `Expanded.put`.
* `aesEncrypt_key`, `aesEncrypt_spec`: the cipher, for all three key lengths and both byte
  orders.
-/

set_option autoImplicit false

namespace Awds.Proofs

open Awds.Lib Awds.Lib.Aes Awds.Gladman

variable (o : ByteOrder)

/-! ### Words and their bytes -/

/-- The bytes of a sum are the sums of the bytes. -/
theorem bval_xor (x y : UInt32) : bval o (x ^^^ y) = Word.add (bval o x) (bval o y) := by
  funext n
  apply UInt8.toBitVec_inj.mp
  simp [bval, Word.add, BitVec.ushiftRight_xor_distrib]

/-- The bytes of a word that was packed. -/
theorem bval_bytes2word (b0 b1 b2 b3 : UInt8) (n : Fin 4) :
    bval o (bytes2word o b0.toUInt32 b1.toUInt32 b2.toUInt32 b3.toUInt32) n
      = (![b0, b1, b2, b3] : Word) n := by
  apply UInt8.toBitVec_inj.mp
  ext i hi
  cases o <;> fin_cases n <;>
    simp (disch := omega) [bval, bvalShift, bytes2word, BitVec.getLsbD_eq_getElem] <;>
    omega

/-- The bytes of a word of the input. -/
theorem bval_wordIn (b0 b1 b2 b3 : UInt8) : bval o (wordIn o b0 b1 b2 b3) = ![b0, b1, b2, b3] :=
  funext (bval_bytes2word o b0 b1 b2 b3)

/-! ### The tables -/

/-- The table of the source is the S-box. -/
theorem sbData_eq : sbData.toList = (List.range 256).map fun i => (sbox (.ofNat i)).toUInt32 := by
  decide +kernel

/-- The table `sb_data` is the S-box of the standard. All entries are compared. -/
theorem sb_eq (b : UInt8) : sb b = (sbox b).toUInt32 := by
  have hlt := b.toNat_lt
  have hget : sb b = (sbData.toList[b.toNat]?).getD 0 := by simp [sb, hlt]
  rw [hget, sbData_eq]
  simp [hlt]

/-- `f2` doubles in the field. All bytes are tried. -/
theorem f2_eq (b : UInt8) : f2 b.toUInt32 = (mul 2 b).toUInt32 := by
  revert b
  decide +kernel

/-- `f3` multiplies by three in the field. -/
theorem f3_eq (b : UInt8) : f3 b.toUInt32 = (mul 3 b).toUInt32 := by
  revert b
  decide +kernel

/-- The bytes of an entry of the tables of a round: what the byte `b` in the row `i` adds to
the column. -/
theorem bval_u (i : Fin 4) (b : UInt8) (r : Fin 4) :
    bval o (u o i b.toUInt32) r
      = if r = i then mul 2 b else if r + 1 = i then mul 3 b else b := by
  fin_cases i <;> simp only [u, f2_eq, f3_eq, bval_bytes2word] <;> fin_cases r <;> rfl

/-- The bytes of an entry of the tables of the last round. -/
theorem bval_w (i : Fin 4) (b : UInt8) (r : Fin 4) :
    bval o (Gladman.w o i b.toUInt32) r = if r = i then b else 0 := by
  have hzero : (0 : UInt32) = (0 : UInt8).toUInt32 := rfl
  fin_cases i <;> simp only [Gladman.w, hzero, bval_bytes2word] <;> fin_cases r <;> rfl

/-- Turning a column by `k` bytes adds `k` to the number of the row. -/
theorem turn_eq (k : Nat) (r : Fin 4) : turn k r = r + Fin.ofNat 4 k := by
  apply Fin.ext
  simp [turn, Fin.val_add]

section

variable (vf : Fin 4 → UInt32) (rf : Fin 4 → Fin 4)

/-- The four tables of a round replace the bytes and multiply the column. -/
theorem bval_fourTables_tFn :
    bval o (fourTables o (tFn o) vf rf)
      = mixColumn (fun i => sbox (bval o (vf i) (rf i))) := by
  funext r
  simp only [fourTables, tFn, sb_eq, bval_xor, Word.add, bval_u]
  -- the sum of the four entries, in the order of the row
  fin_cases r <;> simp [mixColumn, turn_eq] <;> ac_rfl

/-- The four tables of the last round replace the bytes. -/
theorem bval_fourTables_tFl :
    bval o (fourTables o (tFl o) vf rf) = fun r => sbox (bval o (vf r) (rf r)) := by
  funext r
  simp only [fourTables, tFl, sb_eq, bval_xor, Word.add, bval_w]
  fin_cases r <;> simp

end

/-! ### The rounds -/

/-- The columns of the state. -/
def columns (x : Locals) : State := fun c => bval o x[c]

/-- The words of the key schedule hold the words of the expanded key. -/
def HoldsKey (k : Vector UInt32 64) (w : Nat → Word) (m : Nat) : Prop :=
  ∀ i (h : i < 64), i < m → bval o k[i] = w i

section

variable {o} {k : Vector UInt32 64} {w : Nat → Word} {m : Nat}

/-- A round of the code is a round of the cipher. -/
theorem columns_fwdRnd (hk : HoldsKey o k w m) (kp : Fin 61) (x : Locals) {n : Nat}
    (hkp : kp = 4 * n) (hm : 4 * n + 4 ≤ m) :
    columns o (fwdRnd o k kp x) = Aes.round w n (columns o x) := by
  funext c
  have hc := c.isLt
  have hword : bval o k[kp.val + c.val] = w (4 * n + c) :=
    hkp ▸ hk (kp + c) (by omega) (by omega)
  simp only [columns, fwdRnd, Fin.getElem_fin, Vector.getElem_ofFn, bval_xor, hword,
    bval_fourTables_tFn]
  exact funext fun r => UInt8.xor_comm _ _

/-- The last round of the code is the last round of the cipher. -/
theorem columns_fwdLrnd (hk : HoldsKey o k w m) (kp : Fin 61) (x : Locals) {n : Nat}
    (hkp : kp = 4 * n) (hm : 4 * n + 4 ≤ m) :
    columns o (fwdLrnd o k kp x) = lastRound w n (columns o x) := by
  funext c
  have hc := c.isLt
  have hword : bval o k[kp.val + c.val] = w (4 * n + c) :=
    hkp ▸ hk (kp + c) (by omega) (by omega)
  simp only [columns, fwdLrnd, Fin.getElem_fin, Vector.getElem_ofFn, bval_xor, hword,
    bval_fourTables_tFl]
  exact funext fun r => UInt8.xor_comm _ _

/-- The key is added to the input. -/
theorem columns_stateIn (hk : HoldsKey o k w m) (x : Gladman.Block) (hm : 4 ≤ m) :
    columns o (stateIn o x k) = addRoundKey w 0 (Block.toState x) := by
  funext c
  have hc := c.isLt
  have hword := hk c (by omega) (by omega)
  simp only [columns, stateIn, Fin.getElem_fin, Vector.getElem_ofFn, bval_xor, hword, bval_wordIn,
    addRoundKey, Nat.mul_zero, Nat.zero_add]
  congr 1
  funext r
  fin_cases r <;> rfl

/-- The unrolled rounds. -/
theorem columns_case10 (hk : HoldsKey o k w m) (kp : Fin 25) (x : Locals) {n : Nat}
    (hkp : kp = 4 * (n + 1)) (hm : 4 * (n + 10) + 4 ≤ m) (s : State)
    (hx : columns o x = rounds w n s) :
    columns o (case10 o k kp x) = lastRound w (n + 10) (rounds w (n + 9) s) := by
  unfold case10
  simp only
  rw [columns_fwdLrnd hk _ _ (n := n + 10), columns_fwdRnd hk _ _ (n := n + 9),
    columns_fwdRnd hk _ _ (n := n + 8), columns_fwdRnd hk _ _ (n := n + 7),
    columns_fwdRnd hk _ _ (n := n + 6), columns_fwdRnd hk _ _ (n := n + 5),
    columns_fwdRnd hk _ _ (n := n + 4), columns_fwdRnd hk _ _ (n := n + 3),
    columns_fwdRnd hk _ _ (n := n + 2), columns_fwdRnd hk _ _ (n := n + 1), hx]
  · rfl
  all_goals first | omega | (simp only; omega)

/-- Two more rounds in front. -/
theorem columns_case12 (hk : HoldsKey o k w m) (kp : Fin 25) (x : Locals) {n : Nat}
    (hkp : kp = 4 * (n + 3)) (hm : 4 * (n + 12) + 4 ≤ m) (s : State)
    (hx : columns o x = rounds w n s) :
    columns o (case12 o k kp x) = lastRound w (n + 12) (rounds w (n + 11) s) := by
  refine columns_case10 hk kp _ (n := n + 2) (by omega) (by omega) s ?_
  rw [columns_fwdRnd hk _ _ (n := n + 2), columns_fwdRnd hk _ _ (n := n + 1), hx]
  · rfl
  all_goals first | omega | (simp only; omega)

/-- Four more rounds in front. -/
theorem columns_case14 (hk : HoldsKey o k w m) (kp : Fin 25) (x : Locals) {n : Nat}
    (hkp : kp = 4 * (n + 5)) (hm : 4 * (n + 14) + 4 ≤ m) (s : State)
    (hx : columns o x = rounds w n s) :
    columns o (case14 o k kp x) = lastRound w (n + 14) (rounds w (n + 13) s) := by
  refine columns_case12 hk kp _ (n := n + 2) (by omega) (by omega) s ?_
  rw [columns_fwdRnd hk _ _ (n := n + 2), columns_fwdRnd hk _ _ (n := n + 1), hx]
  · rfl
  all_goals first | omega | (simp only; omega)

/-- `state_out` writes the columns one after the other. -/
theorem stateOut_eq (x : Locals) : stateOut o x = (columns o x).toBlock := rfl

/-- `aes_encrypt` is the cipher, for the key schedules that `aes_encrypt_key` makes. -/
theorem aesEncrypt_of_holds {cx : AesEncryptCtx} (hk : HoldsKey o cx.kSch w (4 * (cx.nRnd + 1)))
    (hn : cx.nRnd = 10 ∨ cx.nRnd = 12 ∨ cx.nRnd = 14) (x : Gladman.Block) :
    aesEncrypt o cx x = cipher w cx.nRnd x := by
  have hin : columns o (stateIn o x cx.kSch)
      = rounds w 0 (addRoundKey w 0 (Block.toState x)) := columns_stateIn hk x (by omega)
  unfold aesEncrypt cipher
  rcases hn with hn | hn | hn
  · simp only [hn, stateOut_eq]
    rw [columns_case10 hk _ _ rfl (by omega) _ hin]
  · simp only [hn, stateOut_eq]
    rw [columns_case12 hk _ _ rfl (by omega) _ hin]
  · simp only [hn, stateOut_eq]
    rw [columns_case14 hk _ _ rfl (by omega) _ hin]

end

/-! ### The key schedule -/

/-- The bytes of `ls_box`, turned by `c` positions. -/
theorem bval_lsBox (x : UInt32) (c : Fin 4) :
    bval o (lsBox o x c) = fun r => sbox (bval o x (r - c)) :=
  bval_fourTables_tFl o (fun _ => x) (rf2 c)

/-- `ls_box` with a turn by three bytes is what the standard does to every `nk`-th word: the
rotation, then the substitution. -/
theorem bval_lsBox_three (x : UInt32) : bval o (lsBox o x 3) = subWord (rotWord (bval o x)) := by
  rw [bval_lsBox]
  funext r
  fin_cases r <;> rfl

/-- Without a turn it is the substitution alone. -/
theorem bval_lsBox_zero (x : UInt32) : bval o (lsBox o x 0) = subWord (bval o x) := by
  rw [bval_lsBox]
  funext r
  fin_cases r <;> rfl

/-- The table `t_rc` holds the round constants, in both byte orders. -/
theorem bval_tRc (i : Fin 10) : bval o ((tRc o).get i) = rcon (i + 1) := by
  have hall : ∀ (i : Fin 10) (r : Fin 4), bval o ((tRc o).get i) r = rcon (i + 1) r := by
    cases o <;> decide +kernel
  exact funext (hall i)

section

variable {o} {nk : Nat} {key : Nat → Word} {s : KeySched nk} {n : Nat}

/-- The first `n` words are expanded, and `ss` holds the last `nk` of them. -/
structure Expanded (o : ByteOrder) (nk : Nat) (key : Nat → Word) (n : Nat) (s : KeySched nk) :
    Prop where
  holds : HoldsKey o s.kSch (expand nk key) n
  recent : ∀ j (h : j < nk) m, m < n → n ≤ m + nk → m % nk = j →
    bval o s.ss[j] = expand nk key m

/-- One assignment of the key schedule. -/
theorem Expanded.put (h : Expanded o nk key n s) (hn : nk ≤ n) (h64 : n < 64) (j : Fin nk)
    (hj : n % nk = j) {v : UInt32}
    (hv : bval o v = expandTemp nk n (expand nk key (n - 1))) :
    Expanded o nk key (n + 1) (s.put ⟨n, h64⟩ j v) := by
  have hlt := j.isLt
  have hback : (n - nk) % nk = j := by
    rw [← hj, ← Nat.sub_mul_mod (x := n) (n := nk) (k := 1) (by omega), Nat.mul_one]
  have hword : bval o (s.ss[j.val] ^^^ v) = expand nk key n := by
    rw [bval_xor, h.recent j hlt (n - nk) (by omega) (by omega) hback, hv,
      expand_of_ge (by omega) hn]
  constructor
  · intro i hi hin
    by_cases hni : n = i
    · subst hni
      simpa [KeySched.put] using hword
    · simpa [KeySched.put, Vector.getElem_set_ne _ _ hni] using h.holds i hi (by omega)
  · intro i hi m hm hmn hmod
    by_cases hij : j.val = i
    · subst hij
      -- the only one of the last `nk` words with this remainder is the new one
      have hmeq : m = n := by
        have hzero := Nat.sub_mod_eq_zero_of_mod_eq (hj.trans hmod.symm)
        rw [Nat.mod_eq_of_lt (by omega)] at hzero
        omega
      subst hmeq
      simpa [KeySched.put] using hword
    · have hmne : m ≠ n := by
        rintro rfl
        exact hij (hj.symm.trans hmod)
      simpa [KeySched.put, Vector.getElem_set_ne _ _ hij] using
        h.recent i hi m (by omega) (by omega) hmod

/-- The word before the one that is assigned. -/
theorem Expanded.last (h : Expanded o nk key n s) (hn : 0 < n) (j : Nat) (hlt : j < nk)
    (hj : (n - 1) % nk = j) : bval o s.ss[j] = expand nk key (n - 1) :=
  h.recent j hlt (n - 1) (by omega) (by omega) hj

/-- The first assignment of a cycle. -/
theorem Expanded.head (h : Expanded o nk key n s) (i : Fin 10) (hi : n = nk * (i + 1))
    (h64 : n < 64) (j : Nat) (hj : j + 1 = nk) :
    Expanded o nk key (n + 1)
      (s.put ⟨n, h64⟩ ⟨0, by omega⟩ (lsBox o s.ss[j] 3 ^^^ (tRc o)[i])) := by
  have hn : nk ≤ n := hi ▸ Nat.le_mul_of_pos_right nk (Nat.succ_pos i)
  have hmod : n % nk = 0 := by rw [hi, Nat.mul_mod_right]
  have hlast : (n - 1) % nk = j := by
    have hsplit : n - 1 = j + nk * i := by
      rw [hi, Nat.mul_succ]
      omega
    rw [hsplit, Nat.add_mul_mod_self_left, Nat.mod_eq_of_lt (by omega)]
  refine h.put hn h64 _ hmod ?_
  have hrc : bval o (tRc o)[i] = rcon (i + 1) := bval_tRc o i
  rw [bval_xor, bval_lsBox_three, h.last (by omega) j (by omega) hlast, hrc, expandTemp,
    if_pos hmod, hi, Nat.mul_div_cancel_left _ (by omega)]

/-- An assignment of the word before. -/
theorem Expanded.chain (h : Expanded o nk key n s) (hn : nk ≤ n) (h64 : n < 64) (j : Nat)
    (hlt : j + 1 < nk) (hj : (n - 1) % nk = j) (hj' : n % nk = j + 1)
    (hsub : ¬(6 < nk ∧ j = 3)) :
    Expanded o nk key (n + 1) (s.put ⟨n, h64⟩ ⟨j + 1, hlt⟩ s.ss[j]) := by
  refine h.put hn h64 _ hj' ?_
  rw [h.last (by omega) j (by omega) hj, expandTemp, if_neg (by omega), if_neg (by omega)]

end

section

variable {o} {key : Nat → Word}

/-- `ke4` is one head word and three chained ones. -/
theorem Expanded.ke4 {s : KeySched 4} (i : Fin 10) (h : Expanded o 4 key (4 * i + 4) s) :
    Expanded o 4 key (4 * i + 8) (s.ke4 o i) := by
  have hi := i.isLt
  have h1 := h.head i (by omega) (by omega) 3 rfl
  have h2 := h1.chain (by omega) (by omega) 0 (by omega) (by omega) (by omega) (by omega)
  have h3 := h2.chain (by omega) (by omega) 1 (by omega) (by omega) (by omega) (by omega)
  exact h3.chain (by omega) (by omega) 2 (by omega) (by omega) (by omega) (by omega)

/-- The last call for a key of six words stops behind four words. -/
theorem Expanded.kel6 {s : KeySched 6} (i : Fin 8) (h : Expanded o 6 key (6 * i + 6) s) :
    Expanded o 6 key (6 * i + 10) (s.kel6 o i) := by
  have hi := i.isLt
  have h1 := h.head (i.castLE (by omega)) (by simp; omega) (by omega) 5 rfl
  have h2 := h1.chain (by omega) (by omega) 0 (by omega) (by omega) (by omega) (by omega)
  have h3 := h2.chain (by omega) (by omega) 1 (by omega) (by omega) (by omega) (by omega)
  exact h3.chain (by omega) (by omega) 2 (by omega) (by omega) (by omega) (by omega)

/-- `ke6` goes on with the two words that are left. -/
theorem Expanded.ke6 {s : KeySched 6} (i : Fin 7) (h : Expanded o 6 key (6 * i + 6) s) :
    Expanded o 6 key (6 * i + 12) (s.ke6 o i) := by
  have hi := i.isLt
  have h1 : Expanded o 6 key (6 * i + 10) (s.kel6 o i.castSucc) := Expanded.kel6 i.castSucc h
  have h2 := h1.chain (by omega) (by omega) 3 (by omega) (by omega) (by omega) (by omega)
  exact h2.chain (by omega) (by omega) 4 (by omega) (by omega) (by omega) (by omega)

/-- The last call for a key of eight words stops behind four words. -/
theorem Expanded.kel8 {s : KeySched 8} (i : Fin 7) (h : Expanded o 8 key (8 * i + 8) s) :
    Expanded o 8 key (8 * i + 12) (s.kel8 o i) := by
  have hi := i.isLt
  have h1 := h.head (i.castLE (by omega)) (by simp; omega) (by omega) 7 rfl
  have h2 := h1.chain (by omega) (by omega) 0 (by omega) (by omega) (by omega) (by omega)
  have h3 := h2.chain (by omega) (by omega) 1 (by omega) (by omega) (by omega) (by omega)
  exact h3.chain (by omega) (by omega) 2 (by omega) (by omega) (by omega) (by omega)

/-- `ke8` goes on with a word that is substituted but not rotated, and three chained ones. -/
theorem Expanded.ke8 {s : KeySched 8} (i : Fin 6) (h : Expanded o 8 key (8 * i + 8) s) :
    Expanded o 8 key (8 * i + 16) (s.ke8 o i) := by
  have hi := i.isLt
  have h1 : Expanded o 8 key (8 * i + 12) (s.kel8 o i.castSucc) := Expanded.kel8 i.castSucc h
  -- a key of eight words replaces the bytes of the fourth word too
  have hsub : bval o (lsBox o (s.kel8 o i.castSucc).ss[3] 0)
      = expandTemp 8 (8 * i + 12) (expand 8 key (8 * i + 12 - 1)) := by
    rw [bval_lsBox_zero, h1.last (by omega) 3 (by omega) (by omega), expandTemp,
      if_neg (by omega), if_pos (by omega)]
  have h2 := h1.put (by omega) (by omega) 4 (by simp) hsub
  have h3 := h2.chain (by omega) (by omega) 4 (by omega) (by omega) (by omega) (by omega)
  have h4 := h3.chain (by omega) (by omega) 5 (by omega) (by omega) (by omega) (by omega)
  exact h4.chain (by omega) (by omega) 6 (by omega) (by omega) (by omega) (by omega)

/-- The key schedule begins with the words of the key. -/
theorem expanded_start (o : ByteOrder) (nk : Nat) (key : List UInt8) (kSch : Vector UInt32 64) :
    Expanded o nk (keyWords key) nk (.start o (keyBytes key (4 * nk)) kSch) := by
  have hword : ∀ c (hc : c < nk),
      bval o (wordIn o (keyBytes key (4 * nk))[4 * c] (keyBytes key (4 * nk))[4 * c + 1]
        (keyBytes key (4 * nk))[4 * c + 2] (keyBytes key (4 * nk))[4 * c + 3])
        = expand nk (keyWords key) c := by
    intro c hc
    rw [bval_wordIn, expand_of_lt hc]
    funext r
    fin_cases r <;> simp [keyBytes, keyWords]
  constructor
  · intro i hi hin
    simpa [KeySched.start, hin] using hword i hin
  · intro j hj m hm _ hmod
    rw [Nat.mod_eq_of_lt hm] at hmod
    subst hmod
    simpa [KeySched.start] using hword m hm

end

/-! ### The cipher of a key -/

/-- Behind `aes_encrypt_key` the context holds the expanded key, whatever it held before. -/
theorem aesEncryptKey_holds (key : List UInt8)
    (hkey : key.length = 16 ∨ key.length = 24 ∨ key.length = 32) (cx : AesEncryptCtx) :
    HoldsKey o (aesEncryptKey o key key.length cx).kSch
        (expand (key.length / 4) (keyWords key)) (4 * (key.length / 4 + 6 + 1)) ∧
      (aesEncryptKey o key key.length cx).nRnd = key.length / 4 + 6 := by
  unfold aesEncryptKey
  rcases hkey with hlen | hlen | hlen <;> simp only [hlen]
  · have h0 := expanded_start o 4 key cx.kSch
    have h2 := (h0.ke4 0).ke4 1
    have h4 := (h2.ke4 2).ke4 3
    have h6 := (h4.ke4 4).ke4 5
    have h8 := (h6.ke4 6).ke4 7
    exact ⟨((h8.ke4 8).ke4 9).holds, rfl⟩
  · have h0 := expanded_start o 6 key cx.kSch
    have h2 := (h0.ke6 0).ke6 1
    have h4 := (h2.ke6 2).ke6 3
    have h6 := (h4.ke6 4).ke6 5
    exact ⟨((h6.ke6 6).kel6 7).holds, rfl⟩
  · have h0 := expanded_start o 8 key cx.kSch
    have h2 := (h0.ke8 0).ke8 1
    have h4 := (h2.ke8 2).ke8 3
    have h6 := (h4.ke8 4).ke8 5
    exact ⟨(h6.kel8 6).holds, rfl⟩

/-- The vendored cipher under the key schedule of a key is AES under this key. -/
theorem aesEncrypt_key (key : List UInt8)
    (hkey : key.length = 16 ∨ key.length = 24 ∨ key.length = 32) (cx : AesEncryptCtx)
    (b : Gladman.Block) :
    aesEncrypt o (aesEncryptKey o key key.length cx) b = Aes.encrypt key b := by
  obtain ⟨hholds, hrnd⟩ := aesEncryptKey_holds o key hkey cx
  rw [← hrnd] at hholds
  rw [aesEncrypt_of_holds hholds (by omega), hrnd, Aes.encrypt]

/-- The vendored tables and word operations compute AES: for every key of 16, 24 or 32 bytes
whose length is given in bytes or in bits, every block, either byte order and whatever the
context held before. -/
theorem aesEncrypt_spec (o : ByteOrder) (key : List UInt8)
    (hkey : key.length = 16 ∨ key.length = 24 ∨ key.length = 32) (keyLen : Nat)
    (hlen : keyLen = key.length ∨ keyLen = 8 * key.length) (cx : AesEncryptCtx)
    (b : Gladman.Block) :
    aesEncrypt o (aesEncryptKey o key keyLen cx) b = Aes.encrypt key b := by
  have hbits : aesEncryptKey o key (8 * key.length) cx = aesEncryptKey o key key.length cx := by
    unfold aesEncryptKey
    rcases hkey with h | h | h <;> simp [h]
  rw [← aesEncrypt_key o key hkey cx b]
  rcases hlen with rfl | rfl
  · rfl
  · rw [hbits]

/-- The key length may be given in bits as well. -/
theorem aesEncrypt_spec_bits :
    aesEncrypt .littleEndian (aesEncryptKey .littleEndian (List.replicate 16 0) 128
        ⟨Vector.replicate 64 0, 0⟩) (Vector.replicate 16 0)
      = Aes.encrypt (List.replicate 16 0) (Vector.replicate 16 0) :=
  aesEncrypt_spec .littleEndian (List.replicate 16 0) (by decide) 128 (by decide)
    ⟨Vector.replicate 64 0, 0⟩ (Vector.replicate 16 0)

end Awds.Proofs
