import Awds.Crypto
import Awds.Crypto.Aes
import Awds.Lib.WhileLoop

/-!
# `Awds.Crypto.CcmMode`: the vendored authenticated encryption

`CCM_init`, `CCM_encrypt`, `CCM_decrypt` and `CCM_mode` of the vendored cipher library, without
`LONG_MESSAGES`. The message is changed in place. A call of `CCM_mode` hands the whole message
to one call of `CCM_encrypt` or `CCM_decrypt`.

Both functions work on machine words where the message and the context are aligned alike, and
on bytes otherwise. `Layout` holds the addresses that decide, and the size of a word: the code
casts to `unsigned long`, which has four bytes on some platforms and eight on others. It takes
four words for a block and counts four bytes for a word whatever the size is. The order of the
bytes in a word does not matter.

A word or a byte that does not lie in the 16 bytes of a block of the context is
`Fault.outOfBounds`. The lengths are small enough that their sums do not wrap.
-/

set_option autoImplicit false

namespace Awds.Gladman

open Awds.Lib

/-! ### The context -/

/-- `CCM_ctx`. -/
structure CcmCtx where
  blk : Block
  cbc : Block
  sii : Block
  afLen : Nat
  mdLen : Nat
  cnt : Nat
  aes : AesEncryptCtx

/-- The chain of increments in `inc_ctr`, which ends at the first byte that is not 0 then. -/
def bump : List (Fin 16) → Block → Block
  | [], b => b
  | i :: is, b =>
    let v := b[i] + 1
    let b := b.set i v
    if v = 0 then bump is b else b

/-- `inc_ctr`. -/
def incCtr (b : Block) : Block :=
  if b[0] = 3 then bump [15, 14, 13, 12] b
  else if b[0] = 2 then bump [15, 14, 13] b
  else if b[0] = 1 then bump [15, 14] b
  else b

variable (o : ByteOrder)

/-! ### Initialisation -/

/-- The addresses of the packet buffer and of the context, and the bytes of an `unsigned long`,
of which C demands four at least. -/
structure Layout where
  buffer : Nat
  ctx : Nat
  word : Nat
  word_ge : 4 ≤ word

namespace Layout

/-- `aligned`. -/
def aligned (a : Layout) (x : Nat) : Bool := (a.buffer + x) % 4 = 0

end Layout

/-- The variables of the loops. The pointer `mp` is set behind the first loop. -/
structure CcmRun where
  cnt : Nat
  bPos : Nat
  mp : Nat := 0
  ctx : CcmCtx
  buf : Buffer

/-- `inc_ctr`, and the next counter block and the chain are encrypted. -/
def CcmCtx.nextBlock (c : CcmCtx) : CcmCtx :=
  let blk := incCtr c.blk
  { c with blk := blk, sii := aesEncrypt o c.aes blk, cbc := aesEncrypt o c.aes c.cbc }

/-- The block is full: the next one is begun. -/
def CcmRun.refresh (s : CcmRun) : CcmRun := { s with bPos := 0, ctx := s.ctx.nextBlock o }

/-- The bytes of `lp(b)[k]`, where a word has `w` bytes. -/
def wordOf (w k : Nat) (b : Block) : List UInt8 := (b.toList.drop (w * k)).take w

/-- `lp(b)[k] ^= v`, on the bytes of the word. -/
def xorWord (w k : Nat) (b : Block) (v : List UInt8) : Block :=
  Vector.ofFn fun i =>
    if w * k ≤ i.val ∧ i.val < w * k + w then b.get i ^^^ (v[i.val - w * k]?).getD 0 else b.get i

end Awds.Gladman
