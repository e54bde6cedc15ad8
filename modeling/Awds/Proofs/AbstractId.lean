import Awds.AbstractId
import Awds.Packet

/-!
# `Awds.Proofs.AbstractId`: three forms of one identifier

An identifier of six bytes is a list in the template and a number in the specialisation, and
`SameNumber` says that the number is the one that the bytes stand for. Whatever reads an identifier
establishes this (`sameNumber_fromArray`, `sameNumber_fromArrayI386`, `sameNumber_ofUnsigned`), and
whatever stores, prints or compares one gives the same for both forms.

The loops are related to `toBigEndian` by inductions on the number of bytes, and the loop of the
operators to the lexicographic order of lists by one on the bytes themselves. `abstractID_agree`
puts these together.
-/

set_option autoImplicit false

namespace Awds.Proofs

open Awds.Lib

/-! ### Numbers and bytes -/

/-- A byte behind a number, by `|`. -/
theorem or_eq_add {b k : Nat} (h : b < 2 ^ k) (d : Nat) : d * 2 ^ k ||| b = d * 2 ^ k + b := by
  rw [Nat.mul_comm, Nat.two_pow_add_eq_or_of_lt h]

/-- The loop of the constructor stores the number. -/
theorem bytesOfNumber_eq (n : Nat) (num : UInt32) :
    bytesOfNumber n num = toBigEndian n num.toNat := by
  induction n generalizing num with
  | zero => rfl
  | succ n ih =>
    have hrest : (num >>> 8).toNat = num.toNat / 256 := by
      rw [UInt32.toNat_shiftRight]
      exact Nat.shiftRight_eq_div_pow _ 8
    have hbyte : (num &&& 0xff).toUInt8 = UInt8.ofNat (num.toNat % 256) := by
      apply UInt8.toNat_inj.mp
      have hand : num.toNat &&& 255 = num.toNat % 256 := Nat.and_two_pow_sub_one_eq_mod _ 8
      rw [UInt32.toNat_toUInt8, UInt32.toNat_and, UInt8.toNat_ofNat']
      exact congrArg (· % 256) hand
    rw [bytesOfNumber, toBigEndian, ih, hrest, hbyte]

/-- The loop of `fromArray` reads the number, as long as it has room for the bytes. -/
theorem toNat_foldl (bs : List UInt8) (hlen : bs.length ≤ 8) :
    (bs.foldl (fun d b => d * 0x100 ||| b.toUInt64) (0 : UInt64)).toNat = ofBigEndian bs := by
  induction bs using List.reverseRecOn with
  | nil => rfl
  | append_singleton bs b ih =>
    rw [List.length_append, List.length_singleton] at hlen
    -- The multiplication shifts no byte out of the word.
    have hbound : ofBigEndian bs * 256 < 2 ^ 64 := by
      calc ofBigEndian bs * 256 < 256 ^ bs.length * 256 :=
            Nat.mul_lt_mul_of_pos_right (ofBigEndian_lt bs) (by decide)
        _ ≤ 256 ^ 7 * 256 :=
            Nat.mul_le_mul_right _ (Nat.pow_le_pow_right (by decide) (by omega))
        _ = 2 ^ 64 := by decide
    rw [List.foldl_append, List.foldl_cons, List.foldl_nil, UInt64.toNat_or, UInt64.toNat_mul,
      ih (by omega), UInt8.toNat_toUInt64, ofBigEndian_snoc]
    have hmul : ofBigEndian bs * (0x100 : UInt64).toNat % 2 ^ 64 = ofBigEndian bs * 2 ^ 8 :=
      Nat.mod_eq_of_lt hbound
    rw [hmul, or_eq_add b.toNat_lt]
    rfl

/-- The low byte of a number. -/
theorem toUInt8_eq (dd : UInt64) : dd.toUInt8 = UInt8.ofNat (dd.toNat % 256) := by
  apply UInt8.toNat_inj.mp
  rw [UInt64.toNat_toUInt8, UInt8.toNat_ofNat']
  exact (Nat.mod_mod _ _).symm

/-- The loop of `toArray` stores the low bytes. -/
theorem storeBytes_eq (n : Nat) (data : Buffer) (dd : UInt64) :
    storeBytes n data dd = data.write 0 (toBigEndian n dd.toNat) := by
  induction n generalizing data dd with
  | zero => exact (Buffer.write_nil data 0).symm
  | succ n ih =>
    have hlen := length_toBigEndian n (dd.toNat / 256)
    have hquot : (dd / 0x100).toNat = dd.toNat / 256 := UInt64.toNat_div dd 0x100
    have happend := Buffer.write_write_append data 0 (toBigEndian n (dd.toNat / 256))
      [UInt8.ofNat (dd.toNat % 256)]
    rw [Nat.zero_add, hlen] at happend
    -- The loop writes the last byte first, so the two writes change places.
    rw [storeBytes, ih, hquot, toUInt8_eq, toBigEndian, ← happend]
    exact Buffer.write_comm data _ _ (by rw [hlen]; omega)

/-- The two digits of a byte. -/
def hexPair (b : UInt8) : List UInt8 := [hexDigit (b / 0x10), hexDigit (b % 0x10)]

/-- Each byte is printed as two digits. -/
theorem length_flatMap_hexPair (bs : List UInt8) : (bs.flatMap hexPair).length = 2 * bs.length := by
  induction bs with
  | nil => rfl
  | cons b bs ih =>
    rw [List.flatMap_cons, List.length_append, ih, List.length_cons, hexPair, List.length_cons,
      List.length_cons, List.length_nil]
    omega

/-- The loop of `operator <<` stores the digits of the low bytes. -/
theorem printBytes_eq (n : Nat) (buf : Buffer) (dd : UInt64) :
    printBytes n buf dd = buf.write 0 ((toBigEndian n dd.toNat).flatMap hexPair) := by
  induction n generalizing buf dd with
  | zero => exact (Buffer.write_nil buf 0).symm
  | succ n ih =>
    have hquot : (dd / 0x100).toNat = dd.toNat / 256 := UInt64.toNat_div dd 0x100
    have hlen : ((toBigEndian n (dd.toNat / 256)).flatMap hexPair).length = 2 * n := by
      rw [length_flatMap_hexPair, length_toBigEndian]
    -- Of a pair, the low digit is written first.
    have hpair : ∀ hi lo : UInt8, (buf.write (2 * n + 1) [lo]).write (2 * n) [hi] =
        buf.write (2 * n) [hi, lo] := by
      intro hi lo
      rw [Buffer.write_comm buf [lo] [hi] (Nat.le_refl (2 * n + 1))]
      exact Buffer.write_write_append buf (2 * n) [hi] [lo]
    have happend := Buffer.write_write_append buf 0
      ((toBigEndian n (dd.toNat / 256)).flatMap hexPair) (hexPair (UInt8.ofNat (dd.toNat % 256)))
    rw [Nat.zero_add, hlen] at happend
    rw [printBytes, ih, hquot, toUInt8_eq, hpair, toBigEndian, List.flatMap_append,
      List.flatMap_singleton, ← happend]
    exact Buffer.write_comm buf _ _ (by rw [hlen]; omega)

/-! ### The accesses of i386 -/

section

variable {n : Nat} {bs : List UInt8} (data : Buffer) (off : Nat)

/-- A list of `n` bytes stands for a number below `256 ^ n`. -/
theorem ofBigEndian_lt_of_length (hlen : bs.length = n) : ofBigEndian bs < 256 ^ n := by
  rw [← hlen]
  exact ofBigEndian_lt bs

/-- The bytes that a little-endian load takes for a number, in reverse order. -/
theorem reverse_load (hlen : bs.length = n) :
    ofBigEndian (toBigEndian n (ofBigEndian bs.reverse)).reverse = ofBigEndian bs := by
  have hbytes := toBigEndian_ofBigEndian bs.reverse
  rw [List.length_reverse, hlen] at hbytes
  rw [hbytes, List.reverse_reverse]

/-- The bytes in reverse order, as a little-endian store writes them. -/
theorem reverse_store (n x : Nat) :
    (toBigEndian n (ofBigEndian (toBigEndian n x).reverse)).reverse = toBigEndian n x := by
  have hbytes := toBigEndian_ofBigEndian (toBigEndian n x).reverse
  rw [List.length_reverse, length_toBigEndian] at hbytes
  rw [hbytes, List.reverse_reverse]

/-- Reversing the bytes of a number gives a number of the same size. -/
theorem ofBigEndian_reverse_lt (n x : Nat) : ofBigEndian (toBigEndian n x).reverse < 256 ^ n :=
  ofBigEndian_lt_of_length (by rw [List.length_reverse, length_toBigEndian])

/-- A load of two bytes on a little-endian machine, with its bytes swapped, is the number that the
bytes stand for in their order. -/
theorem toNat_bswap16_load16 :
    (bswap16 (load16 data off)).toNat = ofBigEndian (data.read off 2) := by
  have hlen : (data.read off 2).length = 2 := Buffer.length_read data off 2
  have hload : (load16 data off).toNat = ofBigEndian (data.read off 2).reverse := by
    rw [load16, UInt16.toNat_ofNat']
    exact Nat.mod_eq_of_lt (ofBigEndian_lt_of_length (by rw [List.length_reverse, hlen]))
  rw [bswap16, hload, reverse_load hlen, UInt16.toNat_ofNat']
  exact Nat.mod_eq_of_lt (ofBigEndian_lt_of_length hlen)

/-- The same for a load of four bytes. -/
theorem toNat_bswap32_load32 :
    (bswap32 (load32 data off)).toNat = ofBigEndian (data.read off 4) := by
  have hlen : (data.read off 4).length = 4 := Buffer.length_read data off 4
  have hload : (load32 data off).toNat = ofBigEndian (data.read off 4).reverse := by
    rw [load32, UInt32.toNat_ofNat']
    exact Nat.mod_eq_of_lt (ofBigEndian_lt_of_length (by rw [List.length_reverse, hlen]))
  rw [bswap32, hload, reverse_load hlen, UInt32.toNat_ofNat']
  exact Nat.mod_eq_of_lt (ofBigEndian_lt_of_length hlen)

/-- A store of a number with its bytes swapped writes them with the highest one first. -/
theorem store16_bswap16 (x : UInt16) :
    store16 data off (bswap16 x) = data.write off (toBigEndian 2 x.toNat) := by
  have hswap : (bswap16 x).toNat = ofBigEndian (toBigEndian 2 x.toNat).reverse := by
    rw [bswap16, UInt16.toNat_ofNat']
    exact Nat.mod_eq_of_lt (ofBigEndian_reverse_lt 2 x.toNat)
  rw [store16, hswap, reverse_store]

/-- The same for a store of four bytes. -/
theorem store32_bswap32 (x : UInt32) :
    store32 data off (bswap32 x) = data.write off (toBigEndian 4 x.toNat) := by
  have hswap : (bswap32 x).toNat = ofBigEndian (toBigEndian 4 x.toNat).reverse := by
    rw [bswap32, UInt32.toNat_ofNat']
    exact Nat.mod_eq_of_lt (ofBigEndian_reverse_lt 4 x.toNat)
  rw [store32, hswap, reverse_store]

end

/-! ### The operators -/

/-- Two operands that are in the same order as two others. -/
theorem LexiOp.apply_congr {α β : Type} [DecidableEq α] [LT α] [LE α] [DecidableLT α]
    [DecidableLE α] [DecidableEq β] [LT β] [LE β] [DecidableLT β] [DecidableLE β] {a b : α}
    {c d : β} (heq : a = b ↔ c = d) (hlt : a < b ↔ c < d) (hgt : b < a ↔ d < c)
    (hle : a ≤ b ↔ c ≤ d) (hge : b ≤ a ↔ d ≤ c) (op : LexiOp) :
    op.apply a b = op.apply c d := by
  cases op with
  | eq => exact decide_eq_decide.mpr heq
  | ne => exact decide_eq_decide.mpr (not_congr heq)
  | lt => exact decide_eq_decide.mpr hlt
  | gt => exact decide_eq_decide.mpr hgt
  | le => exact decide_eq_decide.mpr hle
  | ge => exact decide_eq_decide.mpr hge

/-- The order of the numbers that two blocks of one length stand for. -/
theorem apply_ofBigEndian {as bs : List UInt8} (h : as.length = bs.length) (op : LexiOp) :
    op.apply (ofBigEndian as) (ofBigEndian bs) = op.apply as bs := by
  have hlt := ofBigEndian_lt_iff h
  have hgt := ofBigEndian_lt_iff h.symm
  apply LexiOp.apply_congr (ofBigEndian_inj h) hlt hgt
  · rw [← Nat.not_lt, hgt, List.not_lt]
  · rw [← Nat.not_lt, hlt, List.not_lt]

/-- The loop of the operators finds the lexicographic order. -/
theorem lexiLoop_eq (op : LexiOp) {as bs : List UInt8} (h : as.length = bs.length) :
    AbstractID.lexiLoop op as bs = op.apply as bs := by
  induction as generalizing bs with
  | nil =>
    -- Behind the last byte the operator compares equal values.
    cases List.length_eq_zero_iff.mp h.symm
    cases op <;> decide
  | cons a as ih =>
    obtain ⟨b, bs, rfl⟩ := List.exists_cons_of_length_eq_add_one h.symm
    have hlen : as.length = bs.length := Nat.succ.inj h
    rw [AbstractID.lexiLoop]
    by_cases hab : a = b
    · -- The bytes that follow decide.
      subst hab
      rw [if_pos rfl, ih hlen]
      have hlt : ∀ cs ds : List UInt8, a :: cs < a :: ds ↔ cs < ds := by
        intro cs ds
        rw [List.cons_lt_cons_iff]
        simp [UInt8.lt_irrefl]
      apply LexiOp.apply_congr (by simp) (hlt _ _).symm (hlt _ _).symm
      · rw [← List.not_lt, ← List.not_lt, hlt]
      · rw [← List.not_lt, ← List.not_lt, hlt]
    · -- These two bytes decide.
      rw [if_neg hab]
      have hne : ∀ {c d : UInt8}, c ≠ d → ∀ cs ds : List UInt8,
          (c :: cs < d :: ds ↔ c < d) := by
        intro c d hcd cs ds
        rw [List.cons_lt_cons_iff]
        exact ⟨fun h => h.elim id fun h => absurd h.1 hcd, .inl⟩
      have happly : op.apply a b = op.apply (a :: as) (b :: bs) := by
        apply LexiOp.apply_congr (by simp [hab]) (hne hab _ _).symm (hne (Ne.symm hab) _ _).symm
        · rw [← List.not_lt, hne (Ne.symm hab), UInt8.not_lt]
        · rw [← List.not_lt, hne hab, UInt8.not_lt]
      rw [← happly]
      cases op.apply a b <;> rfl

/-! ### The forms of an identifier -/

/-- The number of the specialisation is the one that the bytes of the template stand for. -/
def SameNumber (x : AbstractID6) (a : AbstractID 6) : Prop := x.d.toNat = ofBigEndian a.id

section

variable {x y : AbstractID6} {a b : AbstractID 6}

/-- The loop of the specialisation shifts in one byte after the other, so the first one is the
highest. -/
theorem sameNumber_fromArray (data : Buffer) :
    SameNumber (.fromArray data) (.fromArray 6 data) := by
  apply toNat_foldl
  rw [Buffer.length_read]
  decide

/-- On i386 the six bytes are read in two loads, of two bytes and of four, and put together. -/
theorem sameNumber_fromArrayI386 (data : Buffer) :
    SameNumber (.fromArrayI386 data) (.fromArray 6 data) := by
  have hs := toNat_bswap16_load16 data 0
  have hl := toNat_bswap32_load32 data 2
  have hslt : ofBigEndian (data.read 0 2) < 256 ^ 2 :=
    ofBigEndian_lt_of_length (Buffer.length_read _ _ _)
  have hllt : ofBigEndian (data.read 2 4) < 2 ^ 32 :=
    ofBigEndian_lt_of_length (Buffer.length_read _ _ _)
  -- The first two bytes stand in front of the other four.
  have hhigh : ofBigEndian (data.read 0 2) * 2 ^ 32 % 2 ^ 64 =
      ofBigEndian (data.read 0 2) * 2 ^ 32 := Nat.mod_eq_of_lt (by omega)
  have hread : data.read 0 6 = data.read 0 2 ++ data.read 2 4 := Buffer.read_add data 0 2 4
  unfold SameNumber AbstractID6.fromArrayI386 AbstractID.fromArray
  dsimp only
  rw [hread, ofBigEndian_append, Buffer.length_read, UInt64.toNat_or, UInt64.toNat_mul,
    UInt16.toNat_toUInt64, UInt32.toNat_toUInt64, hs, hl,
    show (0x100000000 : UInt64).toNat = 2 ^ 32 by rfl, hhigh, or_eq_add hllt]
  rfl

/-- A number of 32 bits fills the last four bytes, and the first two are zero. -/
theorem sameNumber_ofUnsigned (num : UInt32) :
    SameNumber (.ofUnsigned num) (.ofUnsigned 6 num) := by
  have hlt : num.toNat < 256 ^ 6 := Nat.lt_of_lt_of_le num.toNat_lt (by decide)
  unfold SameNumber AbstractID6.ofUnsigned AbstractID.ofUnsigned
  dsimp only
  rw [UInt32.toNat_toUInt64, bytesOfNumber_eq, ofBigEndian_toBigEndian_of_lt hlt]

/-- The image of the number is the bytes. -/
theorem SameNumber.toBigEndian_eq (h : SameNumber x a) : toBigEndian 6 x.d.toNat = a.id := by
  have hbytes := toBigEndian_ofBigEndian a.id
  rw [a.length_id] at hbytes
  rw [h, hbytes]

/-- Storing in a loop writes the six bytes with the highest one first. -/
theorem toArray_eq_write (x : AbstractID6) (dest : Buffer) :
    x.toArray dest = dest.write 0 (toBigEndian 6 x.d.toNat) :=
  storeBytes_eq 6 dest x.d

/-- Storing in two writes on i386 does so too: the high half takes two bytes and the low half four.
-/
theorem toArrayI386_eq_write (x : AbstractID6) (dest : Buffer) :
    x.toArrayI386 dest = dest.write 0 (toBigEndian 6 x.d.toNat) := by
  have hhigh : (x.d / 0x100000000).toUInt16.toNat = x.d.toNat / 256 ^ 4 % 256 ^ 2 := by
    rw [UInt64.toNat_toUInt16, UInt64.toNat_div]
    rfl
  have hlow : x.d.toUInt32.toNat = x.d.toNat % 256 ^ 4 := UInt64.toNat_toUInt32 x.d
  have happend := Buffer.write_write_append dest 0 (toBigEndian 2 (x.d.toNat / 256 ^ 4))
    (toBigEndian 4 x.d.toNat)
  rw [length_toBigEndian, Nat.zero_add] at happend
  unfold AbstractID6.toArrayI386
  dsimp only
  -- The casts cut the number down to the bytes that are stored.
  rw [store16_bswap16, store32_bswap32, hhigh, hlow, toBigEndian_mod, toBigEndian_mod, happend,
    ← toBigEndian_add]

/-- Identifiers with the same number are stored as the same bytes. -/
theorem SameNumber.toArray (h : SameNumber x a) (dest : Buffer) :
    x.toArray dest = a.toArray dest := by
  rw [toArray_eq_write, h.toBigEndian_eq]
  rfl

/-- Also by the two writes of i386. -/
theorem SameNumber.toArrayI386 (h : SameNumber x a) (dest : Buffer) :
    x.toArrayI386 dest = a.toArray dest := by
  rw [toArrayI386_eq_write, h.toBigEndian_eq]
  rfl

/-- A value below 16 has a digit. -/
theorem hexDigit_mem {v : UInt8} (h : v.toNat < 16) : hexDigit v ∈ hexnum := by
  have hlen : v.toNat < hexnum.length := h
  unfold hexDigit
  rw [List.getD_eq_getElem hexnum 0 hlen]
  exact List.getElem_mem hlen

/-- The digits that are printed for a byte are hexadecimal digits. -/
theorem mem_hexnum_of_mem_hexPair {b c : UInt8} (h : c ∈ hexPair b) : c ∈ hexnum := by
  have hb : b.toNat < 256 := b.toNat_lt
  rcases List.mem_pair.mp h with rfl | rfl
  · apply hexDigit_mem
    rw [UInt8.toNat_div]
    exact Nat.div_lt_of_lt_mul hb
  · apply hexDigit_mem
    rw [UInt8.toNat_mod]
    exact Nat.mod_lt _ (by decide)

/-- No digit is a zero byte. -/
theorem ne_zero_of_mem_hexnum : ∀ c ∈ hexnum, c ≠ 0 := by
  decide +kernel

/-- Identifiers with the same number are printed alike. The buffer on the stack has room for the
twelve digits and the zero behind them, whatever it held before. -/
theorem SameNumber.print (h : SameNumber x a) (stack : Buffer) : x.print stack = a.print := by
  have hdigits : a.print = a.id.flatMap hexPair := rfl
  have hlen : (a.id.flatMap hexPair).length = 12 := by
    rw [length_flatMap_hexPair, a.length_id]
  have hbuf := Buffer.write_write_append stack 0 (a.id.flatMap hexPair) [0]
  rw [hlen] at hbuf
  -- The string is all of the digits, as there is no zero in front of the last byte.
  have hread : ((printBytes 6 stack x.d).write 12 [0]).read 0 13 =
      a.id.flatMap hexPair ++ [0] := by
    have hself := Buffer.read_write_self stack 0 (a.id.flatMap hexPair ++ [0])
    rw [List.length_append, hlen] at hself
    rw [printBytes_eq, h.toBigEndian_eq, hbuf]
    exact hself
  have hzero : ∀ c ∈ a.id.flatMap hexPair, decide (c ≠ 0) = true := by
    intro c hc
    obtain ⟨b, -, hb⟩ := List.mem_flatMap.mp hc
    exact decide_eq_true (ne_zero_of_mem_hexnum c (mem_hexnum_of_mem_hexPair hb))
  rw [hdigits]
  unfold AbstractID6.print
  dsimp only
  rw [hread, List.takeWhile_append_of_pos hzero, List.takeWhile_cons_of_neg (by decide),
    List.append_nil]

/-- A comparison of two numbers is the lexicographic comparison of their bytes, for each of the six
operators. -/
theorem SameNumber.lexiBoolOp (hx : SameNumber x a) (hy : SameNumber y b) (op : LexiOp) :
    x.lexiBoolOp op y = op.apply a.id b.id := by
  have hlen : a.id.length = b.id.length := by rw [a.length_id, b.length_id]
  rw [← apply_ofBigEndian hlen, ← hx, ← hy]
  have heq : x.d = y.d ↔ x.d.toNat = y.d.toNat := UInt64.toNat_inj.symm
  exact LexiOp.apply_congr heq UInt64.lt_iff_toNat_lt UInt64.lt_iff_toNat_lt
    UInt64.le_iff_toNat_le UInt64.le_iff_toNat_le op

/-- Two identifiers of the specialisation for the same bytes. -/
theorem SameNumber.unique (hx : SameNumber x a) (hy : SameNumber y a) : x = y := by
  cases x
  cases y
  exact congrArg AbstractID6.mk (UInt64.toNat_inj.mp (hx.trans hy.symm))

end

/-- Where an identifier comes from. -/
inductive IdSource where
  | array (data : Buffer)
  | number (num : UInt32)

namespace IdSource

/-- The identifier of the template. -/
def generic : IdSource → AbstractID 6
  | array data => .fromArray 6 data
  | number num => .ofUnsigned 6 num

/-- The identifier of the specialisation. -/
def portable : IdSource → AbstractID6
  | array data => .fromArray data
  | number num => .ofUnsigned num

/-- The identifier of the specialisation on i386. -/
def i386 : IdSource → AbstractID6
  | array data => .fromArrayI386 data
  | number num => .ofUnsigned num

/-- Whether an identifier comes from an array or from a number, the specialisation has the number of
the template. -/
theorem sameNumber_portable (s : IdSource) : SameNumber s.portable s.generic := by
  cases s with
  | array data => exact sameNumber_fromArray data
  | number num => exact sameNumber_ofUnsigned num

/-- So has the specialisation on i386. -/
theorem sameNumber_i386 (s : IdSource) : SameNumber s.i386 s.generic := by
  cases s with
  | array data => exact sameNumber_fromArrayI386 data
  | number num => exact sameNumber_ofUnsigned num

end IdSource

/-- The three forms store the same bytes. -/
def SameBytes (s : IdSource) : Prop :=
  ∀ dest, s.portable.toArray dest = s.generic.toArray dest ∧
    s.i386.toArrayI386 dest = s.generic.toArray dest

/-- The three forms print the same twelve digits. -/
def SameDigits (s : IdSource) : Prop :=
  s.generic.print.length = 12 ∧ (∀ c ∈ s.generic.print, c ∈ hexnum) ∧
    ∀ stack, s.portable.print stack = s.generic.print ∧ s.i386.print stack = s.generic.print

/-- Each operator gives the same for the three forms: the lexicographic order of the bytes. -/
def SameOrder (s t : IdSource) : Prop :=
  ∀ op, s.generic.lexiBoolOp op t.generic = LexiOp.apply op s.generic.id t.generic.id ∧
    s.portable.lexiBoolOp op t.portable = LexiOp.apply op s.generic.id t.generic.id ∧
    s.i386.lexiBoolOp op t.i386 = LexiOp.apply op s.generic.id t.generic.id

/-- An identifier that is stored is the one that is read back. -/
def StoreFetch : Prop :=
  (∀ a : AbstractID 6, ∀ dest, .fromArray 6 (a.toArray dest) = a) ∧
    ∀ x : AbstractID6, x.d.toNat < 2 ^ 48 → ∀ dest,
      .fromArray (x.toArray dest) = x ∧ .fromArrayI386 (x.toArrayI386 dest) = x

/-- An identifier that is read is stored as the six bytes that it was read from. -/
def FetchStore : Prop :=
  ∀ data dest : Buffer,
    (AbstractID.fromArray 6 data).toArray dest = dest.write 0 (data.read 0 6) ∧
    (AbstractID6.fromArray data).toArray dest = dest.write 0 (data.read 0 6) ∧
    (AbstractID6.fromArrayI386 data).toArrayI386 dest = dest.write 0 (data.read 0 6)

/-- Storing and reading give the identifier back. The number of a specialisation has to be below 2 ^
48, which it is if it was read from six bytes or made of 32 bits. -/
theorem storeFetch : StoreFetch := by
  have hgeneric : ∀ a : AbstractID 6, ∀ dest, .fromArray 6 (a.toArray dest) = a := by
    intro a dest
    have hread := Buffer.read_write_self dest 0 a.id
    rw [a.length_id] at hread
    cases a
    simp only [AbstractID.fromArray, AbstractID.toArray, hread]
  refine ⟨hgeneric, fun x hx dest => ?_⟩
  -- The bytes of the number are an identifier of the template.
  let a : AbstractID 6 := ⟨toBigEndian 6 x.d.toNat, length_toBigEndian _ _⟩
  have ha : SameNumber x a := (ofBigEndian_toBigEndian_of_lt (n := 6) hx).symm
  have hback := hgeneric a dest
  constructor
  · refine SameNumber.unique (a := a) ?_ ha
    rw [ha.toArray, ← hback]
    exact sameNumber_fromArray _
  · refine SameNumber.unique (a := a) ?_ ha
    rw [ha.toArrayI386, ← hback]
    exact sameNumber_fromArrayI386 _

/-- Reading and storing give the six bytes back. -/
theorem fetchStore : FetchStore := by
  intro data dest
  exact ⟨rfl, (sameNumber_fromArray data).toArray dest,
    (sameNumber_fromArrayI386 data).toArrayI386 dest⟩

/-- The template and the two variants of its specialisation agree on every identifier. -/
theorem abstractID_agree : (∀ s, SameBytes s ∧ SameDigits s) ∧ (∀ s t, SameOrder s t) ∧
    StoreFetch ∧ FetchStore := by
  refine ⟨fun s => ⟨fun dest => ?_, ?_, ?_, fun stack => ?_⟩, fun s t op => ?_, storeFetch,
    fetchStore⟩
  · exact ⟨s.sameNumber_portable.toArray dest, s.sameNumber_i386.toArrayI386 dest⟩
  · have hdigits : s.generic.print = s.generic.id.flatMap hexPair := rfl
    rw [hdigits, length_flatMap_hexPair, s.generic.length_id]
  · intro c hc
    obtain ⟨b, -, hb⟩ := List.mem_flatMap.mp hc
    exact mem_hexnum_of_mem_hexPair hb
  · exact ⟨s.sameNumber_portable.print stack, s.sameNumber_i386.print stack⟩
  · have hlen : s.generic.id.length = t.generic.id.length := by
      rw [s.generic.length_id, t.generic.length_id]
    exact ⟨lexiLoop_eq op hlen, s.sameNumber_portable.lexiBoolOp t.sameNumber_portable op,
      s.sameNumber_i386.lexiBoolOp t.sameNumber_i386 op⟩

/-- `NodeId` is the number of the specialisation. -/
theorem fromArray_nodeId (data : Buffer) :
    (AbstractID6.fromArray data).d.toNat = (NodeId.fromArray (data.read 0 6)).val := by
  have hlt : ofBigEndian (data.read 0 6) < 2 ^ 48 :=
    ofBigEndian_lt_of_length (Buffer.length_read _ _ _)
  rw [sameNumber_fromArray data]
  exact (Nat.mod_eq_of_lt hlt).symm

/-- A node identifier of the daemon is stored in the way of the specialisation. -/
theorem toArray_nodeId {x : AbstractID6} {id : NodeId} (h : x.d.toNat = id.val) (dest : Buffer) :
    x.toArray dest = dest.write 0 id.toArray := by
  rw [toArray_eq_write, h]
  rfl

end Awds.Proofs
