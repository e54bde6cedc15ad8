import Awds.Topology.State

/-!
# `Awds.Crypto`: signatures and encryption

`AesCcmCryptoUnit` signs and encrypts packets in place. It appends 32 bytes: a 16-byte
authentication value and a 16-byte nonce block whose first half is a 64-bit counter, the
`iv`. `sign` puts the nonce block first, `encrypt` puts the authentication value first.

The functions work on the buffer of a packet and on offsets into it, as the source works on
pointers. A `MemoryBlock` is a part of the same buffer. `sign` and `verifySignature` fill
the blocks they get with zeros while they run, `encrypt` and `decryptDupDetect` copy them
behind the nonce block and authenticate the copies.

## CCM

`CCM_mode` is code of the vendored cipher library. `Ccm` holds what it computes from the
block cipher: the key stream that is added to the message, and the authentication value of
the additional data and the plain message. `Ccm.mode` is the rest of it: an encryption
writes the authentication value behind the message, a decryption compares it and clears
message and value if they differ.
-/

set_option autoImplicit false

namespace Awds

open Std Awds.Lib

/-! ### CCM -/

/-- The parts of CCM that run the block cipher. -/
structure Ccm where
  keyStream : (key nonce : List UInt8) → Nat → List UInt8
  authValue : (key nonce auth msg : List UInt8) → List UInt8
  length_keyStream : ∀ key nonce n, (keyStream key nonce n).length = n
  length_authValue : ∀ key nonce auth msg, (authValue key nonce auth msg).length = 16

namespace Ccm

/-- The limit of the additional authenticated data. -/
abbrev authLimit : Nat := 65536 - 256

/-- Adds a key stream to a message. -/
def addStream (msg stream : List UInt8) : List UInt8 := List.zipWith (· ^^^ ·) msg stream

/-- `CCM_encrypt`: the message and the authentication value that replace `msg` and the 16
bytes behind it. -/
def encrypt (c : Ccm) (key nonce auth msg : List UInt8) : List UInt8 :=
  addStream msg (c.keyStream key nonce msg.length) ++ c.authValue key nonce auth msg

/-- `CCM_decrypt`: whether the authentication value `mac` is right, and the bytes that
replace the message and `mac`. If it is wrong they are cleared. -/
def decrypt (c : Ccm) (key nonce auth msg mac : List UInt8) : Bool × List UInt8 :=
  let plain := addStream msg (c.keyStream key nonce msg.length)
  if mac = c.authValue key nonce auth plain then (true, plain ++ mac)
  else (false, List.replicate (msg.length + 16) 0)

/-- `CCM_mode` on the message of `len` bytes at offset `off`. The flag says whether the
returned value is not negative. -/
def mode (c : Ccm) (key nonce auth : List UInt8) (buf : Buffer) (off len : Nat)
    (isDecrypt : Bool) : Buffer × Bool :=
  if authLimit ≤ auth.length then (buf, false)
  else
    let msg := buf.read off len
    if isDecrypt then
      let (ok, out) := c.decrypt key nonce auth msg (buf.read (off + len) 16)
      (buf.write off out, ok)
    else (buf.write off (c.encrypt key nonce auth msg), true)

end Ccm

/-! ### The crypto unit -/

/-- `CryptoUnit::MemoryBlock`, a part of the buffer of a packet. -/
structure MemoryBlock where
  p : Nat
  size : Nat
  deriving DecidableEq, Repr

/-- The number of bytes that a signature or an encryption appends. -/
abbrev cryptoLen : Nat := 32

/-- `AesCcmCryptoUnit`. Only the first half of the random `nonce` is used. -/
structure AesCcmCryptoUnit where
  key : List UInt8
  nonce : List UInt8
  lastIv : UInt64 := 0
  ivMap : ExtTreeMap NodeId UInt64 compare := ∅

namespace AesCcmCryptoUnit

/-- `storeNonce`. -/
def storeNonce (u : AesCcmCryptoUnit) (buf : Buffer) (noncep : Nat) :
    AesCcmCryptoUnit × Buffer :=
  let iv := u.lastIv + 1
  ({ u with lastIv := iv },
    -- the iv is in front, the fixed half of the nonce behind it
    (buf.write (noncep + 8) (u.nonce.take 8)).write noncep (toBigEndian 8 iv.toNat))

/-- `saveNonsignArea`: the content of the blocks, and the buffer with the blocks cleared. -/
def saveNonsignArea (buf : Buffer) : List MemoryBlock → List (List UInt8) × Buffer
  | [] => ([], buf)
  | b :: bs =>
    let (store, buf') := saveNonsignArea (buf.write b.p (List.replicate b.size 0)) bs
    (buf.read b.p b.size :: store, buf')

/-- `restoreNonsignArea`. -/
def restoreNonsignArea (buf : Buffer) (store : List (List UInt8)) (sg : List MemoryBlock) :
    Buffer :=
  (sg.zip store).foldl (fun buf e => buf.write e.1.p e.2) buf

/-- The copies of the blocks one behind the other, as `crypt` writes them from `auth_end`
on. -/
def copyBlocks (buf : Buffer) (authEnd : Nat) : List MemoryBlock → Buffer
  | [] => buf
  | b :: bs => copyBlocks (buf.write authEnd (buf.read b.p b.size)) (authEnd + b.size) bs

/-- `sign`, on the first `len` bytes of the buffer. -/
def sign (c : Ccm) (u : AesCcmCryptoUnit) (buf : Buffer) (len : Nat)
    (sg : List MemoryBlock) : AesCcmCryptoUnit × Buffer :=
  let (u, buf) := u.storeNonce buf len
  let (store, buf) := saveNonsignArea buf sg
  -- the message is empty: everything in front of it is additional data
  let (buf, _) := c.mode u.key (buf.read len 16) (buf.read 0 (len + 16)) buf (len + 16) 0 false
  (u, restoreNonsignArea buf store sg)

/-- `verifyNonce`, on the nonce block at `noncep`. An unknown source is entered with the
predecessor of its `iv`. -/
def verifyNonce (u : AesCcmCryptoUnit) (src : NodeId) (buf : Buffer) (noncep : Nat) :
    AesCcmCryptoUnit × Bool :=
  let iv := UInt64.ofNat (ofBigEndian (buf.read noncep 8))
  -- `iv - 1` wraps for `iv = 0`, and then the packet is refused
  let stored := (u.ivMap[src]?).getD (iv - 1)
  if stored ≥ iv then ({ u with ivMap := u.ivMap.insert src stored }, false)
  else
    ({ u with
      ivMap := u.ivMap.insert src iv
      -- the own counter follows the received ones
      lastIv := if iv > u.lastIv then iv else u.lastIv }, true)

/-- `verifySignature`. The nonce is checked whatever the authentication value says. -/
def verifySignature (c : Ccm) (u : AesCcmCryptoUnit) (src : NodeId) (buf : Buffer)
    (len : Nat) (sg : List MemoryBlock) : AesCcmCryptoUnit × Buffer × Bool :=
  let (store, cleared) := saveNonsignArea buf sg
  let (out, ok) := c.mode u.key (cleared.read len 16) (cleared.read 0 (len + 16)) cleared
    (len + 16) 0 true
  let buf := restoreNonsignArea out store sg
  let (u, fresh) := u.verifyNonce src buf len
  (u, buf, fresh && ok)

/-- `crypt`, on the `len` bytes from `data` on. The copies of the blocks lie behind the
nonce block and have to fit into the buffer of the packet. -/
def crypt (c : Ccm) (u : AesCcmCryptoUnit) (isDecrypt : Bool) (buf : Buffer)
    (data len : Nat) (sg : List MemoryBlock) : Result (Buffer × Bool) :=
  let noncep := data + len + 16
  let authLen := 16 + (sg.map MemoryBlock.size).sum
  if BasePacket.maxSize < noncep + authLen then .error .outOfBounds
  else
    let buf := copyBlocks buf (noncep + 16) sg
    .ok (c.mode u.key (buf.read noncep 16) (buf.read noncep authLen) buf data len isDecrypt)

/-- `encrypt`. -/
def encrypt (c : Ccm) (u : AesCcmCryptoUnit) (buf : Buffer) (data len : Nat)
    (sg : List MemoryBlock) : Result (AesCcmCryptoUnit × Buffer) := do
  let (u, buf) := u.storeNonce buf (data + len + 16)
  let (buf, _) ← u.crypt c false buf data len sg
  .ok (u, buf)

/-- `decryptDupDetect`. -/
def decryptDupDetect (c : Ccm) (u : AesCcmCryptoUnit) (src : NodeId) (buf : Buffer)
    (data len : Nat) (sg : List MemoryBlock) :
    Result (AesCcmCryptoUnit × Buffer × Bool) := do
  let (buf, ok) ← u.crypt c true buf data len sg
  if !ok then .ok (u, buf, false)
  else
    let (u, fresh) := u.verifyNonce src buf (data + len + 16)
    .ok (u, buf, fresh)

end AesCcmCryptoUnit

end Awds
