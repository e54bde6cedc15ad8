import Awds.Topology.Names

/-!
# `Awds.AbstractId`: the identifiers of a fixed length

`AbstractID` is the template for any number of bytes, and `AbstractID6` its specialisation for six
bytes, which keeps a number of 64 bits. The specialisation has two variants of `fromArray` and
`toArray`: loops over the bytes, and accesses of 16 and of 32 bits on i386, which is little-endian.

Memory is a buffer that begins at `data`. `toArray` of the template also returns a reference to the
identifier itself, which is left out, and `operator <<` is modelled by the characters that it
prints.
-/

set_option autoImplicit false

namespace Awds

open Awds.Lib

/-- The operators that the macro `LEXI_BOOL_OP` is used for. -/
inductive LexiOp where
  | eq
  | ne
  | lt
  | gt
  | le
  | ge
  deriving DecidableEq, Repr

/-- What an operator of the language gives. -/
def LexiOp.apply {α : Type} [DecidableEq α] [LT α] [LE α] [DecidableLT α] [DecidableLE α] :
    LexiOp → α → α → Bool
  | eq, a, b => a = b
  | ne, a, b => a ≠ b
  | lt, a, b => a < b
  | gt, a, b => b < a
  | le, a, b => a ≤ b
  | ge, a, b => b ≤ a

/-- The digits. -/
def hexnum : List UInt8 := cStr "0123456789ABCDEF"

/-- The digit for a value below 16. -/
def hexDigit (x : UInt8) : UInt8 := hexnum.getD x.toNat 0

/-! ### The template -/

/-- An identifier of `size` bytes. -/
structure AbstractID (size : Nat) where
  id : List UInt8
  length_id : id.length = size
  deriving DecidableEq, Repr

/-- The loop of the constructor, from the last byte to the first one. -/
def bytesOfNumber : Nat → UInt32 → List UInt8
  | 0, _ => []
  | n + 1, num => bytesOfNumber n (num >>> 8) ++ [(num &&& 0xff).toUInt8]

theorem length_bytesOfNumber (n : Nat) (num : UInt32) : (bytesOfNumber n num).length = n := by
  induction n generalizing num with
  | zero => rfl
  | succ n ih => rw [bytesOfNumber, List.length_append, ih, List.length_singleton]

namespace AbstractID

variable {size : Nat}

/-- The constructor for a number. -/
def ofUnsigned (size : Nat) (num : UInt32) : AbstractID size :=
  ⟨bytesOfNumber size num, length_bytesOfNumber size num⟩

/-- `fromArray`. -/
def fromArray (size : Nat) (data : Buffer) : AbstractID size :=
  ⟨data.read 0 size, Buffer.length_read data 0 size⟩

/-- `toArray`. -/
def toArray (a : AbstractID size) (data : Buffer) : Buffer := data.write 0 a.id

/-- The loop of `LEXI_BOOL_OP`. -/
def lexiLoop (op : LexiOp) : List UInt8 → List UInt8 → Bool
  | a :: as, b :: bs =>
    if a = b then lexiLoop op as bs
    else if !op.apply a b then false
    else if op.apply a b then true
    else lexiLoop op as bs
  | _, _ => op.apply (0 : Int) 0

/-- `LEXI_BOOL_OP`: the operators of the template. -/
def lexiBoolOp (op : LexiOp) (a b : AbstractID size) : Bool := lexiLoop op a.id b.id

/-- `operator <<`. -/
def print (aid : AbstractID size) : List UInt8 :=
  aid.id.flatMap fun b => [hexDigit (b / 0x10), hexDigit (b % 0x10)]

end AbstractID

/-! ### The specialisation -/

/-- An identifier of six bytes. -/
structure AbstractID6 where
  d : UInt64
  deriving DecidableEq, Repr

/-- The loop of `toArray` for the first `n` bytes, from the last one of them on. -/
def storeBytes : Nat → Buffer → UInt64 → Buffer
  | 0, data, _ => data
  | n + 1, data, dd => storeBytes n (data.write n [dd.toUInt8]) (dd / 0x100)

/-- The loop of `operator <<` for the first `n` bytes, from the last one of them on. -/
def printBytes : Nat → Buffer → UInt64 → Buffer
  | 0, buf, _ => buf
  | n + 1, buf, dd =>
    let x := dd.toUInt8
    let buf := buf.write (2 * n + 1) [hexDigit (x % 0x10)]
    let buf := buf.write (2 * n) [hexDigit (x / 0x10)]
    printBytes n buf (dd / 0x100)

/-! The accesses of a little-endian machine, and the functions that reverse the bytes. -/

/-- A load of 16 bits. -/
def load16 (data : Buffer) (off : Nat) : UInt16 :=
  UInt16.ofNat (ofBigEndian (data.read off 2).reverse)

/-- A load of 32 bits. -/
def load32 (data : Buffer) (off : Nat) : UInt32 :=
  UInt32.ofNat (ofBigEndian (data.read off 4).reverse)

/-- A store of 16 bits. -/
def store16 (data : Buffer) (off : Nat) (x : UInt16) : Buffer :=
  data.write off (toBigEndian 2 x.toNat).reverse

/-- A store of 32 bits. -/
def store32 (data : Buffer) (off : Nat) (x : UInt32) : Buffer :=
  data.write off (toBigEndian 4 x.toNat).reverse

/-- `bswap_16`. -/
def bswap16 (x : UInt16) : UInt16 := UInt16.ofNat (ofBigEndian (toBigEndian 2 x.toNat).reverse)

/-- `bswap_32`. -/
def bswap32 (x : UInt32) : UInt32 := UInt32.ofNat (ofBigEndian (toBigEndian 4 x.toNat).reverse)

namespace AbstractID6

/-- The constructor for a number. -/
def ofUnsigned (num : UInt32) : AbstractID6 := ⟨num.toUInt64⟩

/-- `fromArray`. -/
def fromArray (data : Buffer) : AbstractID6 :=
  ⟨(data.read 0 6).foldl (fun d b => d * 0x100 ||| b.toUInt64) 0⟩

/-- `toArray`. -/
def toArray (a : AbstractID6) (data : Buffer) : Buffer := storeBytes 6 data a.d

/-- `fromArray` on i386. -/
def fromArrayI386 (data : Buffer) : AbstractID6 :=
  let s := bswap16 (load16 data 0)
  let d := s.toUInt64 * 0x100000000
  let l := bswap32 (load32 data 2)
  ⟨d ||| l.toUInt64⟩

/-- `toArray` on i386. -/
def toArrayI386 (a : AbstractID6) (data : Buffer) : Buffer :=
  let data := store16 data 0 (bswap16 (a.d / 0x100000000).toUInt16)
  store32 data 2 (bswap32 a.d.toUInt32)

/-- `LEXI_BOOL_OP`: the operators of the specialisation. -/
def lexiBoolOp (op : LexiOp) (a b : AbstractID6) : Bool := op.apply a.d b.d

/-- `operator <<`. `stack` is what `buf` holds in front of the call. -/
def print (aid : AbstractID6) (stack : Buffer) : List UInt8 :=
  let buf := printBytes 6 stack aid.d
  let buf := buf.write 12 [0]
  (buf.read 0 13).takeWhile (· ≠ 0)

end AbstractID6

end Awds
