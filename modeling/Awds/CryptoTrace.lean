import Awds.Crypto
import Awds.Lib.Traced

/-!
# `Awds.CryptoTrace`: the writes of signatures and of encryption

`sign` and `encrypt` once more, with the writes to the buffer of the packet as events. A buffer of
the model has no end, so the source writes behind its buffer where an event here does.
-/

set_option autoImplicit false

namespace Awds

open Awds.Lib

/-- A write of `size` bytes at `off`. -/
structure BufferWrite where
  off : Nat
  size : Nat
  deriving DecidableEq, Repr

/-- A part of a function with its writes. -/
abbrev Written (α : Type) := Traced BufferWrite Fault α

/-- A write of some bytes. -/
def writeTraced (buf : Buffer) (off : Nat) (bs : List UInt8) : Written Buffer := do
  Traced.emit [⟨off, bs.length⟩]
  pure (buf.write off bs)

/-- `CCM_mode` for an encryption. -/
def Ccm.modeTraced (c : Ccm) (key nonce auth : List UInt8) (buf : Buffer) (off len : Nat) :
    Written Buffer :=
  if authLimit ≤ auth.length then pure buf
  else writeTraced buf off (c.encrypt key nonce auth (buf.read off len))

namespace AesCcmCryptoUnit

/-- `storeNonce`. -/
def storeNonceTraced (u : AesCcmCryptoUnit) (buf : Buffer) (noncep : Nat) :
    Written (AesCcmCryptoUnit × Buffer) := do
  let iv := u.lastIv + 1
  let buf ← writeTraced buf (noncep + 8) (u.nonce.take 8)
  let buf ← writeTraced buf noncep (toBigEndian 8 iv.toNat)
  pure ({ u with lastIv := iv }, buf)

/-- `saveNonsignArea`. -/
def saveNonsignAreaTraced (buf : Buffer) : List MemoryBlock → Written (List (List UInt8) × Buffer)
  | [] => pure ([], buf)
  | b :: bs => do
    let buf' ← writeTraced buf b.p (List.replicate b.size 0)
    let (store, buf') ← saveNonsignAreaTraced buf' bs
    pure (buf.read b.p b.size :: store, buf')

/-- The loop of `restoreNonsignArea`, over the blocks with what is stored of them. -/
def restoreNonsignAreaTraced (buf : Buffer) : List (MemoryBlock × List UInt8) → Written Buffer
  | [] => pure buf
  | e :: es => do
    let buf ← writeTraced buf e.1.p e.2
    restoreNonsignAreaTraced buf es

/-- The copies of the blocks in `crypt`. -/
def copyBlocksTraced (buf : Buffer) (authEnd : Nat) : List MemoryBlock → Written Buffer
  | [] => pure buf
  | b :: bs => do
    let buf ← writeTraced buf authEnd (buf.read b.p b.size)
    copyBlocksTraced buf (authEnd + b.size) bs

/-- `sign`. -/
def signTraced (c : Ccm) (u : AesCcmCryptoUnit) (buf : Buffer) (len : Nat)
    (sg : List MemoryBlock) : Written (AesCcmCryptoUnit × Buffer) := do
  let (u, buf) ← u.storeNonceTraced buf len
  let (store, buf) ← saveNonsignAreaTraced buf sg
  let buf ← c.modeTraced u.key (buf.read len 16) (buf.read 0 (len + 16)) buf (len + 16) 0
  let buf ← restoreNonsignAreaTraced buf (sg.zip store)
  pure (u, buf)

/-- `encrypt`. -/
def encryptTraced (c : Ccm) (u : AesCcmCryptoUnit) (buf : Buffer) (data len : Nat)
    (sg : List MemoryBlock) : Written (AesCcmCryptoUnit × Buffer) := do
  let noncep := data + len + 16
  let (u, buf) ← u.storeNonceTraced buf noncep
  -- the copies lie behind everything that is sent
  let buf ← copyBlocksTraced buf (noncep + 16) sg
  let authLen := 16 + (sg.map MemoryBlock.size).sum
  let buf ← c.modeTraced u.key (buf.read noncep 16) (buf.read noncep authLen) buf data len
  pure (u, buf)

end AesCcmCryptoUnit

end Awds
