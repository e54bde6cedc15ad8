import Mathlib.Data.Fin.Basic
import Mathlib.Logic.Function.Basic

/-!
# `Awds.Crypto.Aes`: the vendored block cipher

`aes_encrypt_key` and `aes_encrypt` of the vendored cipher library, as `aesopt.h` configures
them: tables that are fixed at compile time, four of them for a round, for the last round and
for the key schedule, unrolled rounds and safe input and output. Only encryption is compiled.

The four bytes of a column are packed into a word in the byte order of the platform
(`ByteOrder`), and the tables are built for that order.

`aes_encrypt` reads its input before it writes its output, so both can be the same array. The
indices into the 64 words of the key schedule are bounded by their types. Words that are not
written keep what they hold.
-/

set_option autoImplicit false

namespace Awds.Gladman

/-! ### Words -/

/-- `INTERNAL_BYTE_ORDER`. -/
inductive ByteOrder where
  | littleEndian
  | bigEndian
  deriving DecidableEq, Repr

variable (o : ByteOrder)

/-- `bytes2word`. -/
def bytes2word (b0 b1 b2 b3 : UInt32) : UInt32 :=
  match o with
  | .littleEndian => (b3 <<< 24) ||| (b2 <<< 16) ||| (b1 <<< 8) ||| b0
  | .bigEndian => (b0 <<< 24) ||| (b1 <<< 16) ||| (b2 <<< 8) ||| b3

/-- The shift in `bval`. -/
def bvalShift (n : Fin 4) : UInt32 :=
  match o with
  | .littleEndian => 8 * UInt32.ofNat n
  | .bigEndian => 24 - 8 * UInt32.ofNat n

/-- `bval`. -/
def bval (x : UInt32) (n : Fin 4) : UInt8 := (x >>> bvalShift o n).toUInt8

/-- `word_in`, on the four bytes that it reads. -/
def wordIn (b0 b1 b2 b3 : UInt8) : UInt32 :=
  bytes2word o b0.toUInt32 b1.toUInt32 b2.toUInt32 b3.toUInt32

/-! ### Tables -/

/-- `WPOLY`. -/
abbrev wpoly : UInt32 := 0x011b

/-- `f2`. -/
def f2 (x : UInt32) : UInt32 := (x <<< 1) ^^^ (((x >>> 7) &&& 1) * wpoly)

/-- `f3`. -/
def f3 (x : UInt32) : UInt32 := f2 x ^^^ x

set_option maxRecDepth 2000 in
/-- `sb_data`. -/
def sbData : Vector UInt32 256 := #v[
  0x63, 0x7c, 0x77, 0x7b, 0xf2, 0x6b, 0x6f, 0xc5, 0x30, 0x01, 0x67, 0x2b,
  0xfe, 0xd7, 0xab, 0x76, 0xca, 0x82, 0xc9, 0x7d, 0xfa, 0x59, 0x47, 0xf0,
  0xad, 0xd4, 0xa2, 0xaf, 0x9c, 0xa4, 0x72, 0xc0, 0xb7, 0xfd, 0x93, 0x26,
  0x36, 0x3f, 0xf7, 0xcc, 0x34, 0xa5, 0xe5, 0xf1, 0x71, 0xd8, 0x31, 0x15,
  0x04, 0xc7, 0x23, 0xc3, 0x18, 0x96, 0x05, 0x9a, 0x07, 0x12, 0x80, 0xe2,
  0xeb, 0x27, 0xb2, 0x75, 0x09, 0x83, 0x2c, 0x1a, 0x1b, 0x6e, 0x5a, 0xa0,
  0x52, 0x3b, 0xd6, 0xb3, 0x29, 0xe3, 0x2f, 0x84, 0x53, 0xd1, 0x00, 0xed,
  0x20, 0xfc, 0xb1, 0x5b, 0x6a, 0xcb, 0xbe, 0x39, 0x4a, 0x4c, 0x58, 0xcf,
  0xd0, 0xef, 0xaa, 0xfb, 0x43, 0x4d, 0x33, 0x85, 0x45, 0xf9, 0x02, 0x7f,
  0x50, 0x3c, 0x9f, 0xa8, 0x51, 0xa3, 0x40, 0x8f, 0x92, 0x9d, 0x38, 0xf5,
  0xbc, 0xb6, 0xda, 0x21, 0x10, 0xff, 0xf3, 0xd2, 0xcd, 0x0c, 0x13, 0xec,
  0x5f, 0x97, 0x44, 0x17, 0xc4, 0xa7, 0x7e, 0x3d, 0x64, 0x5d, 0x19, 0x73,
  0x60, 0x81, 0x4f, 0xdc, 0x22, 0x2a, 0x90, 0x88, 0x46, 0xee, 0xb8, 0x14,
  0xde, 0x5e, 0x0b, 0xdb, 0xe0, 0x32, 0x3a, 0x0a, 0x49, 0x06, 0x24, 0x5c,
  0xc2, 0xd3, 0xac, 0x62, 0x91, 0x95, 0xe4, 0x79, 0xe7, 0xc8, 0x37, 0x6d,
  0x8d, 0xd5, 0x4e, 0xa9, 0x6c, 0x56, 0xf4, 0xea, 0x65, 0x7a, 0xae, 0x08,
  0xba, 0x78, 0x25, 0x2e, 0x1c, 0xa6, 0xb4, 0xc6, 0xe8, 0xdd, 0x74, 0x1f,
  0x4b, 0xbd, 0x8b, 0x8a, 0x70, 0x3e, 0xb5, 0x66, 0x48, 0x03, 0xf6, 0x0e,
  0x61, 0x35, 0x57, 0xb9, 0x86, 0xc1, 0x1d, 0x9e, 0xe1, 0xf8, 0x98, 0x11,
  0x69, 0xd9, 0x8e, 0x94, 0x9b, 0x1e, 0x87, 0xe9, 0xce, 0x55, 0x28, 0xdf,
  0x8c, 0xa1, 0x89, 0x0d, 0xbf, 0xe6, 0x42, 0x68, 0x41, 0x99, 0x2d, 0x0f,
  0xb0, 0x54, 0xbb, 0x16]

/-- The element of `sb_data` at a byte. -/
def sb (b : UInt8) : UInt32 :=
  have := b.toNat_lt
  sbData[b.toNat]

/-- `w0` to `w3`. -/
def w : Fin 4 → UInt32 → UInt32
  | 0, p => bytes2word o p 0 0 0
  | 1, p => bytes2word o 0 p 0 0
  | 2, p => bytes2word o 0 0 p 0
  | 3, p => bytes2word o 0 0 0 p

/-- `u0` to `u3`. -/
def u : Fin 4 → UInt32 → UInt32
  | 0, p => bytes2word o (f2 p) p p (f3 p)
  | 1, p => bytes2word o (f3 p) (f2 p) p p
  | 2, p => bytes2word o p (f3 p) (f2 p) p
  | 3, p => bytes2word o p p (f3 p) (f2 p)

/-- `t_fn`, the tables of a normal round. -/
def tFn (i : Fin 4) (b : UInt8) : UInt32 := u o i (sb b)

/-- `t_fl`, the tables of the last round and of the key schedule. -/
def tFl (i : Fin 4) (b : UInt8) : UInt32 := w o i (sb b)

/-- `t_rc`. -/
def tRc : Vector UInt32 10 := #v[
  w o 0 0x01, w o 0 0x02, w o 0 0x04, w o 0 0x08, w o 0 0x10,
  w o 0 0x20, w o 0 0x40, w o 0 0x80, w o 0 0x1b, w o 0 0x36]

/-- `four_tables`. The byte for the table `r` is the byte `rf r` of the word `vf r`. -/
def fourTables (tab : Fin 4 → UInt8 → UInt32) (vf : Fin 4 → UInt32) (rf : Fin 4 → Fin 4) :
    UInt32 :=
  tab 0 (bval o (vf 0) (rf 0)) ^^^ tab 1 (bval o (vf 1) (rf 1))
    ^^^ tab 2 (bval o (vf 2) (rf 2)) ^^^ tab 3 (bval o (vf 3) (rf 3))

/-- `rf2`: `(8 + r - c) & 3`. -/
def rf2 (c r : Fin 4) : Fin 4 := r - c

/-- `ls_box`. -/
def lsBox (x : UInt32) (c : Fin 4) : UInt32 := fourTables o (tFl o) (fun _ => x) (rf2 c)

/-! ### The cipher -/

/-- A block of 16 bytes. -/
abbrev Block := Vector UInt8 16

/-- `aes_encrypt_ctx`. The length of `k_sch` is `KS_LENGTH`. -/
structure AesEncryptCtx where
  kSch : Vector UInt32 64
  nRnd : Nat

/-- The local variables `b0` and `b1`, the columns of the state. -/
abbrev Locals := Vector UInt32 4

/-- `state_in`. -/
def stateIn (x : Block) (k : Vector UInt32 64) : Locals :=
  Vector.ofFn fun c => wordIn o x[4 * c.val] x[4 * c.val + 1] x[4 * c.val + 2] x[4 * c.val + 3]
    ^^^ k[c.val]

/-- `state_out`. -/
def stateOut (x : Locals) : Block :=
  Vector.ofFn fun i => bval o x[i.val / 4] ⟨i.val % 4, by omega⟩

/-- `fwd_var`. -/
def fwdVar (x : Locals) (c r : Fin 4) : UInt32 := x[c + r]

/-- `round(fwd_rnd, y, x, k)`, with the key words from `kp` on.
`N_COLS` is 4. -/
def fwdRnd (k : Vector UInt32 64) (kp : Fin 61) (x : Locals) : Locals :=
  Vector.ofFn fun c => k[kp.val + c.val] ^^^ fourTables o (tFn o) (fwdVar x c) id

/-- `round(fwd_lrnd, y, x, k)`. -/
def fwdLrnd (k : Vector UInt32 64) (kp : Fin 61) (x : Locals) : Locals :=
  Vector.ofFn fun c => k[kp.val + c.val] ^^^ fourTables o (tFl o) (fwdVar x c) id

/-- `case 10` of the unrolled rounds. -/
def case10 (k : Vector UInt32 64) (kp : Fin 25) (b0 : Locals) : Locals :=
  let b1 := fwdRnd o k ⟨kp, by omega⟩ b0
  let b0 := fwdRnd o k ⟨kp + 4, by omega⟩ b1
  let b1 := fwdRnd o k ⟨kp + 2 * 4, by omega⟩ b0
  let b0 := fwdRnd o k ⟨kp + 3 * 4, by omega⟩ b1
  let b1 := fwdRnd o k ⟨kp + 4 * 4, by omega⟩ b0
  let b0 := fwdRnd o k ⟨kp + 5 * 4, by omega⟩ b1
  let b1 := fwdRnd o k ⟨kp + 6 * 4, by omega⟩ b0
  let b0 := fwdRnd o k ⟨kp + 7 * 4, by omega⟩ b1
  let b1 := fwdRnd o k ⟨kp + 8 * 4, by omega⟩ b0
  fwdLrnd o k ⟨kp + 9 * 4, by omega⟩ b1

/-- `case 12`, which falls through. -/
def case12 (k : Vector UInt32 64) (kp : Fin 25) (b0 : Locals) : Locals :=
  let b1 := fwdRnd o k ⟨kp - 2 * 4, by omega⟩ b0
  let b0 := fwdRnd o k ⟨kp - 4, by omega⟩ b1
  case10 o k kp b0

/-- `case 14`, which falls through. -/
def case14 (k : Vector UInt32 64) (kp : Fin 25) (b0 : Locals) : Locals :=
  let b1 := fwdRnd o k ⟨kp - 4 * 4, by omega⟩ b0
  let b0 := fwdRnd o k ⟨kp - 3 * 4, by omega⟩ b1
  case12 o k kp b0

/-- `aes_encrypt`. The pointer `kp` is advanced by `(n_rnd - 9) * N_COLS`. -/
def aesEncrypt (cx : AesEncryptCtx) (inBlk : Block) : Block :=
  let b0 := stateIn o inBlk cx.kSch
  stateOut o <| match cx.nRnd with
    | 14 => case14 o cx.kSch ⟨(14 - 9) * 4, by decide⟩ b0
    | 12 => case12 o cx.kSch ⟨(12 - 9) * 4, by decide⟩ b0
    | 10 => case10 o cx.kSch ⟨(10 - 9) * 4, by decide⟩ b0
    | _ => b0

/-! ### The key schedule -/

/-- The key schedule while it is filled, with the local array `ss` of the last words. -/
structure KeySched (nk : Nat) where
  kSch : Vector UInt32 64
  ss : Vector UInt32 nk

namespace KeySched

/-- `k[n] = ss[j] ^= v`. -/
def put {nk : Nat} (s : KeySched nk) (n : Fin 64) (j : Fin nk) (v : UInt32) :
    KeySched nk :=
  let x := s.ss[j] ^^^ v
  { kSch := s.kSch.set n x, ss := s.ss.set j x }

/-- `ke4`, and `kel4`, which is the same. -/
def ke4 (i : Fin 10) (s : KeySched 4) : KeySched 4 :=
  let s := s.put ⟨4 * i + 4, by omega⟩ 0 (lsBox o s.ss[3] 3 ^^^ (tRc o)[i])
  let s := s.put ⟨4 * i + 5, by omega⟩ 1 s.ss[0]
  let s := s.put ⟨4 * i + 6, by omega⟩ 2 s.ss[1]
  s.put ⟨4 * i + 7, by omega⟩ 3 s.ss[2]

/-- `kel6`. -/
def kel6 (i : Fin 8) (s : KeySched 6) : KeySched 6 :=
  let s := s.put ⟨6 * i + 6, by omega⟩ 0 (lsBox o s.ss[5] 3 ^^^ (tRc o)[i])
  let s := s.put ⟨6 * i + 7, by omega⟩ 1 s.ss[0]
  let s := s.put ⟨6 * i + 8, by omega⟩ 2 s.ss[1]
  s.put ⟨6 * i + 9, by omega⟩ 3 s.ss[2]

/-- `ke6`, which goes on where `kel6` ends. -/
def ke6 (i : Fin 7) (s : KeySched 6) : KeySched 6 :=
  let s := s.kel6 o i.castSucc
  let s := s.put ⟨6 * i + 10, by omega⟩ 4 s.ss[3]
  s.put ⟨6 * i + 11, by omega⟩ 5 s.ss[4]

/-- `kel8`. -/
def kel8 (i : Fin 7) (s : KeySched 8) : KeySched 8 :=
  let s := s.put ⟨8 * i + 8, by omega⟩ 0 (lsBox o s.ss[7] 3 ^^^ (tRc o)[i])
  let s := s.put ⟨8 * i + 9, by omega⟩ 1 s.ss[0]
  let s := s.put ⟨8 * i + 10, by omega⟩ 2 s.ss[1]
  s.put ⟨8 * i + 11, by omega⟩ 3 s.ss[2]

/-- `ke8`, which goes on where `kel8` ends. -/
def ke8 (i : Fin 6) (s : KeySched 8) : KeySched 8 :=
  let s := s.kel8 o i.castSucc
  let s := s.put ⟨8 * i + 12, by omega⟩ 4 (lsBox o s.ss[3] 0)
  let s := s.put ⟨8 * i + 13, by omega⟩ 5 s.ss[4]
  let s := s.put ⟨8 * i + 14, by omega⟩ 6 s.ss[5]
  s.put ⟨8 * i + 15, by omega⟩ 7 s.ss[6]

/-- The key schedule that begins with the words of the key. The others are what they were. -/
def start {nk : Nat} (key : Vector UInt8 (4 * nk)) (kSch : Vector UInt32 64) :
    KeySched nk :=
  let ss := Vector.ofFn fun c : Fin nk =>
    wordIn o key[4 * c.val] key[4 * c.val + 1] key[4 * c.val + 2] key[4 * c.val + 3]
  { kSch := Vector.ofFn fun i => (ss[i.val]?).getD kSch[i], ss := ss }

end KeySched

/-- `aes_encrypt_key128`. -/
def aesEncryptKey128 (key : Vector UInt8 16) (cx : AesEncryptCtx) : AesEncryptCtx :=
  let s : KeySched 4 := .start o key cx.kSch
  let s := (s.ke4 o 0).ke4 o 1
  let s := (s.ke4 o 2).ke4 o 3
  let s := (s.ke4 o 4).ke4 o 5
  let s := (s.ke4 o 6).ke4 o 7
  let s := (s.ke4 o 8).ke4 o 9
  { kSch := s.kSch, nRnd := 10 }

/-- `aes_encrypt_key192`. -/
def aesEncryptKey192 (key : Vector UInt8 24) (cx : AesEncryptCtx) : AesEncryptCtx :=
  let s : KeySched 6 := .start o key cx.kSch
  let s := (s.ke6 o 0).ke6 o 1
  let s := (s.ke6 o 2).ke6 o 3
  let s := (s.ke6 o 4).ke6 o 5
  let s := (s.ke6 o 6).kel6 o 7
  { kSch := s.kSch, nRnd := 12 }

/-- `aes_encrypt_key256`. -/
def aesEncryptKey256 (key : Vector UInt8 32) (cx : AesEncryptCtx) : AesEncryptCtx :=
  let s : KeySched 8 := .start o key cx.kSch
  let s := (s.ke8 o 0).ke8 o 1
  let s := (s.ke8 o 2).ke8 o 3
  let s := (s.ke8 o 4).ke8 o 5
  let s := s.kel8 o 6
  { kSch := s.kSch, nRnd := 14 }

/-- The first `n` bytes of a key. -/
def keyBytes (key : List UInt8) (n : Nat) : Vector UInt8 n :=
  Vector.ofFn fun i => (key[i.val]?).getD 0

/-- `aes_encrypt_key`. The length is in bytes or in bits. -/
def aesEncryptKey (key : List UInt8) (keyLen : Nat) (cx : AesEncryptCtx) : AesEncryptCtx :=
  if keyLen = 16 ∨ keyLen = 128 then aesEncryptKey128 o (keyBytes key 16) cx
  else if keyLen = 24 ∨ keyLen = 192 then aesEncryptKey192 o (keyBytes key 24) cx
  else if keyLen = 32 ∨ keyLen = 256 then aesEncryptKey256 o (keyBytes key 32) cx
  else cx

end Awds.Gladman
