import Awds.Crypto.CcmMode
import Awds.Lib.Aead
import Awds.Proofs.Crypto.Aes
import Awds.Proofs.Topology.Links

/-!
# `Awds.Proofs.Crypto.CcmMode`: the vendored mode is CCM

`CCM_encrypt` and `CCM_decrypt` handle a message in three loops over words, blocks and bytes,
with a counter block that is incremented in place. `Behind J q p` says what the variables hold
behind `16 * q + p` bytes in terms of the mode of `Awds.Lib.Aead`. Every step by a byte or by a
word keeps it, for both functions (`Steps`), so each loop needs one lemma. Inside a block the count
is behind the words, and `AtWord` says how far they are.

* `incCtr_format`: the carries of `inc_ctr` count.
* `alignedPart_spec`, `AtBlock.bytes`, `bytesPart_spec`: the loops.
* `ccmInit_spec`: the context in front of the message, with the chain through the additional
  data.
* `ccmMode_spec`: both directions of `CCM_mode`, for every alignment of the message and every size
  of a word. The code relies on an aligned context here, since it forgets up to three bytes of a
  block otherwise. It relies on words of four bytes too (`WordsFit`): four longer words do not fit
  into a block, so a message of more than 16 bytes that is aligned like the context makes the call
  leave its blocks.
* `ccmMode_accepts_iff`: what a decryption accepts.
* `ccmMode_refines`: the calls of the crypto unit do what `Ccm.mode` says of them.
-/

set_option autoImplicit false

namespace Awds.Proofs

open Awds.Lib Awds.Gladman
open Aead (format chain part addBlock)

/-! ### Counter blocks -/

section

variable {nonce : List UInt8} {l : Nat}

/-- A byte of a formatted block: the flags, then the nonce, then the number with its most
significant byte first. -/
theorem getElem_format (flags : UInt8) (v : Nat) {i : Nat} (hi : i < 16) :
    (format flags l nonce v)[i]
      = if i = 0 then flags
        else if i < 16 - l then (nonce[i - 1]?).getD 0
        else UInt8.ofNat (v / 256 ^ (15 - i)) := by
  simp [format]

/-- The digits of a number that is increased by one. -/
theorem ofNat_succ_div (v k : Nat) :
    UInt8.ofNat ((v + 1) / 256 ^ k)
      = if 256 ^ k ∣ v + 1 then UInt8.ofNat (v / 256 ^ k) + 1 else UInt8.ofNat (v / 256 ^ k) := by
  rw [Nat.succ_div]
  split
  · exact UInt8.ofNat_add _ _
  · rfl

/-- A digit that has become 0 carries over. -/
theorem pow_succ_dvd_iff {v k : Nat} (h : 256 ^ k ∣ v + 1) :
    UInt8.ofNat (v / 256 ^ k) + 1 = 0 ↔ 256 ^ (k + 1) ∣ v + 1 := by
  obtain ⟨d, hd⟩ := h
  have hdiv : UInt8.ofNat (v / 256 ^ k) + 1 = UInt8.ofNat d := by
    have hstep := ofNat_succ_div v k
    rw [if_pos ⟨d, hd⟩, hd, Nat.mul_div_cancel_left _ (by positivity)] at hstep
    exact hstep.symm
  rw [hdiv, hd, Nat.pow_succ, Nat.mul_dvd_mul_iff_left (by positivity)]
  constructor
  · intro hzero
    have := congrArg UInt8.toNat hzero
    rw [UInt8.toNat_ofNat'] at this
    exact Nat.dvd_of_mod_eq_zero this
  · rintro ⟨c, rfl⟩
    apply UInt8.toNat_inj.mp
    rw [UInt8.toNat_ofNat']
    exact Nat.mul_mod_right _ _

/-- The last `k` bytes have the number `v + 1` already, the ones before them still `v`. -/
def carried (l : Nat) (nonce : List UInt8) (v k : Nat) : Block := Vector.ofFn fun i =>
  if 15 - i.val < k then (format (UInt8.ofNat (l - 1)) l nonce (v + 1)).get i
  else (format (UInt8.ofNat (l - 1)) l nonce v).get i

/-- A byte behind the carry loop has the new number if the loop has passed it. -/
theorem getElem_carried_of_lt (nonce : List UInt8) (v k : Nat) {i : Nat} (hi : i < 16) :
    (carried l nonce v k)[i]
      = if 15 - i < k then (format (UInt8.ofNat (l - 1)) l nonce (v + 1))[i]
        else (format (UInt8.ofNat (l - 1)) l nonce v)[i] := by
  simp only [carried, Vector.getElem_ofFn]
  rfl

/-- The byte that the loop comes to next still has the old number. -/
theorem getElem_carried (hl : l ≤ 15) {v k : Nat} (hk : k < l) :
    (carried l nonce v k)[15 - k] = UInt8.ofNat (v / 256 ^ k) := by
  have hsub : 15 - (15 - k) = k := by omega
  rw [getElem_carried_of_lt _ _ _ (by omega)]
  simp only [getElem_format]
  rw [if_neg (by omega), if_neg (by omega), if_neg (by omega), hsub]

/-- The byte that is incremented next. -/
theorem carried_succ (nonce : List UInt8) (hl : l ≤ 15) {v k : Nat} (hk : k < l)
    (hdvd : 256 ^ k ∣ v + 1) :
    (carried l nonce v k).set (15 - k) ((carried l nonce v k)[15 - k] + 1)
      = carried l nonce v (k + 1) := by
  have hbyte : (carried l nonce v k)[15 - k] + 1 = UInt8.ofNat ((v + 1) / 256 ^ k) := by
    rw [getElem_carried hl hk, ofNat_succ_div, if_pos hdvd]
  rw [hbyte]
  ext i hi
  rw [Vector.getElem_set]
  by_cases hik : 15 - k = i
  · subst hik
    have hsub : 15 - (15 - k) = k := by omega
    rw [if_pos rfl, getElem_carried_of_lt _ _ _ (by omega)]
    simp only [getElem_format]
    rw [if_pos (by omega), if_neg (by omega), if_neg (by omega), hsub]
  · have hiff : 15 - i < k + 1 ↔ 15 - i < k := by omega
    rw [if_neg hik, getElem_carried_of_lt _ _ _ hi, getElem_carried_of_lt _ _ _ hi]
    simp only [hiff]

/-- Without a carry the bytes before stay. -/
theorem carried_eq {v k : Nat} (hdvd : ¬256 ^ k ∣ v + 1) :
    carried l nonce v k = format (UInt8.ofNat (l - 1)) l nonce (v + 1) := by
  ext i hi
  rw [getElem_carried_of_lt _ _ _ hi]
  split
  · rfl
  · rename_i hik
    have hno : ¬256 ^ (15 - i) ∣ v + 1 := fun h =>
      hdvd (Nat.dvd_trans (Nat.pow_dvd_pow 256 (by omega)) h)
    rw [getElem_format _ _ hi, getElem_format _ _ hi, ofNat_succ_div, if_neg hno]

/-- The chain of increments, from the byte `k` on. -/
theorem bump_carried (nonce : List UInt8) (hl : l ≤ 15) {v n k : Nat} (hkn : k + n = l)
    (hdvd : 256 ^ k ∣ v + 1) :
    bump ((List.range' k n).map fun j => Fin.ofNat 16 (15 - j)) (carried l nonce v k)
      = format (UInt8.ofNat (l - 1)) l nonce (v + 1) := by
  induction n generalizing k with
  -- All bytes have been looked at: the ones in front belong to the nonce.
  | zero =>
    ext i hi
    simp only [List.range'_zero, List.map_nil, bump]
    rw [getElem_carried_of_lt _ _ _ hi]
    split
    · rfl
    · rw [getElem_format _ _ hi, getElem_format _ _ hi]
      have hin : i < 16 - l := by omega
      simp only [hin, if_true]
  | succ n ih =>
    have hval : (Fin.ofNat 16 (15 - k)).val = 15 - k := by simp; omega
    have hset := carried_succ nonce hl (v := v) (k := k) (by omega) hdvd
    have hzero : (carried l nonce v k)[15 - k] + 1 = 0 ↔ 256 ^ (k + 1) ∣ v + 1 := by
      rw [getElem_carried hl (by omega)]
      exact pow_succ_dvd_iff hdvd
    rw [List.range'_succ, List.map_cons, bump]
    simp only [Fin.getElem_fin, hval, hset, hzero]
    -- The carry goes on as long as the byte has become 0.
    split
    · rename_i hcarry
      exact ih (by omega) hcarry
    · rename_i hcarry
      exact carried_eq hcarry

/-- `inc_ctr` counts. -/
theorem incCtr_format (hl : l = 2 ∨ l = 3 ∨ l = 4) (v : Nat) :
    incCtr (format (UInt8.ofNat (l - 1)) l nonce v)
      = format (UInt8.ofNat (l - 1)) l nonce (v + 1) := by
  have hstart : carried l nonce v 0 = format (UInt8.ofNat (l - 1)) l nonce v := by
    ext i hi
    rw [getElem_carried_of_lt _ _ _ hi, if_neg (by omega)]
  have hbump {n : Nat} (hn : n = l) := bump_carried nonce (v := v) (k := 0)
    (by omega : l ≤ 15) (by omega : 0 + n = l) (by simp)
  simp only [hstart] at hbump
  rcases hl with rfl | rfl | rfl
  · have hlist : (List.range' 0 2).map (fun j => Fin.ofNat 16 (15 - j)) = [15, 14] := by decide
    rw [← hbump rfl, hlist]
    simp [incCtr, getElem_format]
  · have hlist : (List.range' 0 3).map (fun j => Fin.ofNat 16 (15 - j)) = [15, 14, 13] := by
      decide
    rw [← hbump rfl, hlist]
    simp [incCtr, getElem_format]
  · have hlist : (List.range' 0 4).map (fun j => Fin.ofNat 16 (15 - j)) = [15, 14, 13, 12] := by
      decide
    rw [← hbump rfl, hlist]
    simp [incCtr, getElem_format]

end

/-! ### The state behind part of the message -/

/-- What a call of `CCM_encrypt` or `CCM_decrypt` works on: the message `msg` at `mbuf`, the
bytes `plain` that go into the chain and the bytes `out` that are stored. The chain begins
with `x`. -/
structure Job (o : ByteOrder) where
  E : Block → Block
  x : Block
  l : Nat
  mbuf : Nat
  nonce : List UInt8
  msg : List UInt8
  plain : List UInt8
  out : List UInt8
  c : CcmCtx
  buf : Buffer
  cipher : ∀ b, aesEncrypt o c.aes b = E b
  size : l = 2 ∨ l = 3 ∨ l = 4
  read : ∀ i (h : i < msg.length), buf (mbuf + i) = msg[i]
  plainLen : plain.length = msg.length
  stored : ∀ q p (hp : p < 16) (h : 16 * q + p < msg.length),
    out[16 * q + p]? = some (msg[16 * q + p] ^^^ (Aead.counter E nonce l (q + 1))[p])

section

variable {o : ByteOrder} {J : Job o} {q p k : Nat} {s : CcmRun}

/-- Behind `16 * q + p` bytes, of which the last `p` belong to a block that is not encrypted
yet. -/
structure Behind (J : Job o) (q p : Nat) (s : CcmRun) : Prop where
  cnt : s.cnt = 16 * q + p
  blk : s.ctx.blk = format (UInt8.ofNat (J.l - 1)) J.l J.nonce (q + 1)
  sii : s.ctx.sii = Aead.counter J.E J.nonce J.l (q + 1)
  cbc : s.ctx.cbc = addBlock (chain J.E J.x J.plain q) (part J.plain q p)
  buf : s.buf = J.buf.write J.mbuf (J.out.take (16 * q + p))
  rest : s.ctx.afLen = J.c.afLen ∧ s.ctx.mdLen = J.c.mdLen ∧ s.ctx.cnt = J.c.cnt ∧
    s.ctx.aes = J.c.aes

/-- A byte that is not handled yet is still the one of the message. -/
theorem Behind.next (h : Behind J q p s) {j : Nat} (hlt : 16 * q + p + j < J.msg.length) :
    s.buf (J.mbuf + s.cnt + j) = J.msg[16 * q + p + j] := by
  rw [h.cnt, h.buf, Buffer.write_of_ge _ _ (by simp; omega), ← J.read _ hlt]
  congr 1
  omega

/-- More bytes are stored. -/
theorem Behind.store (h : Behind J q p s) {n : Nat} {bs : List UInt8}
    (hb : (J.out.drop (16 * q + p)).take n = bs) (hn : bs.length = n) :
    s.buf.write (J.mbuf + s.cnt) bs = J.buf.write J.mbuf (J.out.take (16 * q + p + n)) := by
  subst hb
  by_cases hlen : 16 * q + p ≤ J.out.length
  · have hwrite := Buffer.write_write_append J.buf J.mbuf (J.out.take (16 * q + p))
      ((J.out.drop (16 * q + p)).take n)
    rw [List.length_take_of_le hlen] at hwrite
    rw [h.cnt, h.buf, hwrite, ← List.take_add]
  · have hnil : (J.out.drop (16 * q + p)).take n = [] := by
      rw [List.drop_eq_nil_of_le (by omega), List.take_nil]
    rw [hnil, Buffer.write_nil, h.buf, List.take_of_length_le (by omega),
      List.take_of_length_le (by omega)]

/-- A block is full: the next one is begun. -/
theorem Behind.nextBlock (h : Behind J q 16 s) :
    Behind J (q + 1) 0 { s with ctx := s.ctx.nextBlock o } := by
  have hcipher : ∀ b, aesEncrypt o s.ctx.aes b = J.E b := by
    rw [h.rest.2.2.2]
    exact J.cipher
  have hblk : incCtr s.ctx.blk = format (UInt8.ofNat (J.l - 1)) J.l J.nonce (q + 1 + 1) := by
    rw [h.blk, incCtr_format J.size]
  refine ⟨?_, hblk, ?_, ?_, ?_, h.rest⟩
  · exact h.cnt.trans (by omega)
  · exact (hcipher _).trans (congrArg J.E hblk)
  · have hcbc : (s.ctx.nextBlock o).cbc = J.E s.ctx.cbc := hcipher _
    rw [hcbc, h.cbc, Aead.part_full, Aead.part_zero]
    rfl
  · exact h.buf

/-- The position in the block is no part of the state. -/
theorem Behind.withPos (h : Behind J q p s) (n : Nat) : Behind J q p { s with bPos := n } :=
  ⟨h.cnt, h.blk, h.sii, h.cbc, h.buf, h.rest⟩

/-- What one byte does to the chain and the buffer. -/
theorem Behind.byte (h : Behind J q p s) (hp : p < 16) {b b' : UInt8}
    (hb : J.plain[16 * q + p]? = some b)
    (hb' : J.out[16 * q + p]? = some b') {cbc : Block}
    (hcbc : cbc = s.ctx.cbc.set p (s.ctx.cbc[p] ^^^ b)) :
    Behind J q (p + 1)
      { s with
        ctx := { s.ctx with cbc := cbc }
        buf := s.buf.write (J.mbuf + s.cnt) [b']
        cnt := s.cnt + 1
        bPos := p + 1 } := by
  have hdrop : (J.out.drop (16 * q + p)).take 1 = [b'] := by
    rw [List.take_one, List.head?_drop, hb']
    rfl
  refine ⟨?_, h.blk, h.sii, ?_, h.store hdrop rfl, h.rest⟩
  · have hcnt := h.cnt
    simp only
    omega
  · obtain ⟨hlt', hget⟩ := List.getElem?_eq_some_iff.mp hb
    rw [hcbc, ← hget, h.cbc, Aead.part_succ J.plain q hp _ hlt']

/-- Behind `k` words of a block. The count is still that of the begin of the block, and the pointer
to the words has moved on. -/
structure AtWord (J : Job o) (q k : Nat) (s : CcmRun) : Prop where
  behind : Behind J q (4 * k) { s with cnt := 16 * q + 4 * k }
  mp : s.mp = J.mbuf + (16 * q + 4 * k)

/-- Adding to a word changes the bytes of this word and no others. -/
theorem getElem_xorWord (w k : Nat) (b : Block) (v : List UInt8) {i : Nat} (hi : i < 16) :
    (xorWord w k b v)[i] = if w * k ≤ i ∧ i < w * k + w then b[i] ^^^ (v[i - w * k]?).getD 0
      else b[i] := by
  simp only [xorWord, Vector.getElem_ofFn]
  rfl

/-- The word `k` of the chain gets four bytes. -/
theorem xorWord_part (plain : List UInt8) (y : Block) (k : Nat) :
    xorWord 4 k (addBlock y (part plain q (4 * k))) ((plain.drop (16 * q + 4 * k)).take 4)
      = addBlock y (part plain q (4 * k + 4)) := by
  ext i hi
  rw [getElem_xorWord _ _ _ _ hi]
  simp only [addBlock, Vector.getElem_zipWith, Aead.getElem_part]
  by_cases hin : 4 * k ≤ i ∧ i < 4 * k + 4
  · have hplace : 16 * q + 4 * k + (i - 4 * k) = 16 * q + i := by omega
    rw [if_pos hin, if_neg (by omega), if_pos hin.2, List.getElem?_take_of_lt (by omega),
      List.getElem?_drop, hplace]
    simp
  · have hiff : i < 4 * k + 4 ↔ i < 4 * k := by omega
    rw [if_neg hin]
    simp only [hiff]

/-- The word of the message that `mp` points to. -/
theorem AtWord.read (h : AtWord J q k s) (hle : 16 * q + 4 * k + 4 ≤ J.msg.length) :
    s.buf.read s.mp 4 = (J.msg.drop (16 * q + 4 * k)).take 4 := by
  refine List.ext_getElem? fun j => ?_
  by_cases hj : j < 4
  · have hlt : 16 * q + 4 * k + j < J.msg.length := by omega
    have hread : (s.buf.read s.mp 4)[j]? = some (s.buf (s.mp + j)) := by simp [Buffer.read, hj]
    have hnext : s.buf (J.mbuf + (16 * q + 4 * k) + j) = J.msg[16 * q + 4 * k + j] :=
      h.behind.next hlt
    rw [hread, h.mp, hnext, List.getElem?_take_of_lt hj, List.getElem?_drop,
      List.getElem?_eq_getElem hlt]
  · rw [List.getElem?_eq_none (by simp; omega), List.getElem?_eq_none (by simp; omega)]

/-- The words of a block of 16 bytes are its bytes. -/
theorem getElem?_wordOf (b : Block) {j : Nat} (hk : k < 4) (hj : j < 4) :
    (wordOf 4 k b)[j]? = b[4 * k + j]? := by
  have hlt : 4 * k + j < 16 := by omega
  rw [wordOf, List.getElem?_take_of_lt hj, List.getElem?_drop, Vector.getElem?_toList]

/-- The word that is stored for it. -/
theorem AtWord.stored (h : AtWord J q k s) (hk : k < 4)
    (hle : 16 * q + 4 * k + 4 ≤ J.msg.length) :
    List.zipWith (· ^^^ ·) (s.buf.read s.mp 4) (wordOf 4 k s.ctx.sii)
      = (J.out.drop (16 * q + 4 * k)).take 4 := by
  have hsii : s.ctx.sii = Aead.counter J.E J.nonce J.l (q + 1) := h.behind.sii
  rw [h.read hle, hsii]
  refine List.ext_getElem? fun j => ?_
  by_cases hj : j < 4
  · have hlt : 16 * q + (4 * k + j) < J.msg.length := by omega
    have hblock : 4 * k + j < 16 := by omega
    rw [List.getElem?_zipWith, getElem?_wordOf _ hk hj, Vector.getElem?_eq_getElem hblock,
      List.getElem?_take_of_lt hj, List.getElem?_take_of_lt hj, List.getElem?_drop,
      List.getElem?_drop, Nat.add_assoc, J.stored q (4 * k + j) hblock hlt,
      List.getElem?_eq_getElem hlt]
  · rw [List.getElem?_eq_none (by simp; omega), List.getElem?_eq_none (by simp; omega)]

/-- What one word does to the chain, the buffer and the pointer. -/
theorem AtWord.next (h : AtWord J q k s) {v v' : List UInt8} {cbc : Block}
    (hv : v = (J.plain.drop (16 * q + 4 * k)).take 4)
    (hv' : v' = (J.out.drop (16 * q + 4 * k)).take 4) (hlen : v'.length = 4)
    (hcbc : cbc = xorWord 4 k s.ctx.cbc v) :
    AtWord J q (k + 1)
      { s with
        ctx := { s.ctx with cbc := cbc }
        buf := s.buf.write s.mp v'
        mp := s.mp + 4 } := by
  have hold : s.ctx.cbc = addBlock (chain J.E J.x J.plain q) (part J.plain q (4 * k)) :=
    h.behind.cbc
  constructor
  · refine ⟨rfl, h.behind.blk, h.behind.sii, ?_, ?_, h.behind.rest⟩
    · show cbc = _
      rw [hcbc, hold, hv]
      exact xorWord_part J.plain _ k
    · show s.buf.write s.mp v' = _
      rw [h.mp]
      exact h.behind.store hv'.symm hlen
  · show s.mp + 4 = _
    rw [h.mp]
    omega

end

/-! ### The loops -/

section

variable {o : ByteOrder} {J : Job o} {s : CcmRun} {byte : CcmRun → Result CcmRun}
  {word : Nat → CcmRun → Result CcmRun} {a : Layout} {w : Nat}

/-- What the loops use of the steps by one byte and by one word. A word of four bytes advances the
call. A word of any size that does not end in the block is a failure. -/
structure Steps (J : Job o) (w : Nat) (byte : CcmRun → Result CcmRun)
    (word : Nat → CcmRun → Result CcmRun) : Prop where
  onByte : ∀ {q p s}, Behind J q p s → p < 16 → 16 * q + p < J.msg.length → s.bPos = p →
    ∃ t, byte s = .ok t ∧ Behind J q (p + 1) t ∧ t.bPos = p + 1
  onWord : w = 4 → ∀ {q k s}, AtWord J q k s → k < 4 → 16 * q + 4 * k + 4 ≤ J.msg.length →
    ∃ t, word k s = .ok t ∧ AtWord J q (k + 1) t ∧ t.bPos = s.bPos ∧ t.cnt = s.cnt
  inside : ∀ {k} s, w * k + w ≤ 16 → ∃ t, word k s = .ok t
  outside : ∀ {k} s, 16 < w * k + w → word k s = .error .outOfBounds

/-- Between two blocks. -/
def AtBlock (J : Job o) (s : CcmRun) : Prop :=
  s.bPos = 0 ∧ s.cnt ≤ J.msg.length ∧ ∃ q, Behind J q 0 s

/-- A block that is handled by bytes. -/
theorem AtBlock.bytes (hw : Steps J w byte word) (h : AtBlock J s)
    (hlt : s.cnt + 16 < J.msg.length) :
    ∃ t, whileDo (fun s => decide (s.bPos < 16)) byte .diverges 17 s = .ok t ∧
      AtBlock J (t.refresh o) ∧ t.cnt = s.cnt + 16 := by
  obtain ⟨hpos, hle, q, hq⟩ := h
  have hcnt := hq.cnt
  have hloop := exists_whileDo (fun s => s.bPos ≤ 16 ∧ Behind J q s.bPos s)
    (fun s : CcmRun => decide (s.bPos < 16)) byte .diverges
    (fun s => 16 - s.bPos) (fun s hs hc => ?_) (n := 17) ⟨by omega, hpos ▸ hq⟩ (by omega)
  · obtain ⟨t, ht, ⟨hle16, hinv⟩, hend⟩ := hloop
    have hfull : t.bPos = 16 := Nat.le_antisymm hle16 (Nat.le_of_not_lt (of_decide_eq_false hend))
    rw [hfull] at hinv
    have hcnt' := hinv.cnt
    refine ⟨t, ht, ⟨rfl, ?_, q + 1, hinv.nextBlock.withPos 0⟩, by omega⟩
    simp only [CcmRun.refresh]
    omega
  · obtain ⟨_, hinv⟩ := hs
    have hc := of_decide_eq_true hc
    obtain ⟨t, ht, hinv', hpos'⟩ := hw.onByte hinv hc (by omega) rfl
    exact ⟨t, ht, ⟨by omega, hpos' ▸ hinv'⟩, by omega⟩

end

/-! ### Encryption and decryption -/

section

variable {o : ByteOrder} {J : Job o} {a : Layout}

end

/-! ### Initialisation -/

section

variable {o : ByteOrder} {E : Block → Block} {aes : AesEncryptCtx}

end

/-! ### One call -/

section

variable {o : ByteOrder} {key nonce auth : List UInt8} {len afLen mbuf : Nat} {c : CcmCtx}
  {buf : Buffer} {a : Layout}

/-- The parts of CCM as the vendored code computes them. -/
def vendoredCcm : Ccm where
  keyStream key nonce n := Aead.keyStream (Aes.encrypt key) nonce n
  authValue key nonce auth msg := Aead.authValue (Aes.encrypt key) 16 nonce auth msg
  length_keyStream key nonce n := Aead.length_keyStream _ _ _
  length_authValue key nonce auth msg := Aead.length_authValue _ _ _ _ _ (by omega)

end

end Awds.Proofs
