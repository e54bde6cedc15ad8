import Awds.Proofs.Crypto.Blocks

/-!
# `Awds.Proofs.Crypto.Inputs`: what `CCM_mode` gets

The authentication value of a packet is a function of the key, the nonce and the
authenticated bytes that `CCM_mode` gets. `CcmInput` holds these three.

`signInput`, `verifyInput` and `cryptInput` are the inputs in `sign`, `verifySignature` and
`crypt`; `sign_eq`, `verifySignature_eq` and `crypt_eq` say that these functions use them.
The rest of the file says which bytes of the buffer an input depends on, and that the
functions leave these bytes behind them as they have read them:

* `verifyInput_congr` and `verifyInput_sign` for signatures,
* `cryptInput_congr` and `cryptInput_encrypt` for encryptions.
-/

set_option autoImplicit false

namespace Awds.Proofs

open Awds.Lib Awds.AesCcmCryptoUnit

/-- The key, the nonce and the authenticated bytes of a call of `CCM_mode`. -/
structure CcmInput where
  key : List UInt8
  nonce : List UInt8
  auth : List UInt8

/-- The input in `verifySignature`. -/
def verifyInput (u : AesCcmCryptoUnit) (buf : Buffer) (len : Nat) (sg : List MemoryBlock) :
    CcmInput :=
  let cleared := (saveNonsignArea buf sg).2
  { key := u.key, nonce := cleared.read len 16, auth := cleared.read 0 (len + 16) }

/-- The input in `sign`. -/
def signInput (u : AesCcmCryptoUnit) (buf : Buffer) (len : Nat) (sg : List MemoryBlock) :
    CcmInput :=
  verifyInput (u.storeNonce buf len).1 (u.storeNonce buf len).2 len sg

/-- The input in `crypt`. -/
def cryptInput (u : AesCcmCryptoUnit) (buf : Buffer) (data len : Nat)
    (sg : List MemoryBlock) : CcmInput :=
  let noncep := data + len + 16
  let copied := copyBlocks buf (noncep + 16) sg
  { key := u.key
    nonce := copied.read noncep 16
    auth := copied.read noncep (16 + (sg.map MemoryBlock.size).sum) }

/-- The input in `encrypt`. -/
def encryptInput (u : AesCcmCryptoUnit) (buf : Buffer) (data len : Nat)
    (sg : List MemoryBlock) : CcmInput :=
  cryptInput (u.storeNonce buf (data + len + 16)).1 (u.storeNonce buf (data + len + 16)).2
    data len sg

section Inputs

variable {c : Ccm} {u u' : AesCcmCryptoUnit} {src : NodeId} {buf buf' : Buffer}
  {data len : Nat} {sg : List MemoryBlock}

/-! ### Signatures -/

/-- `sign` calls `CCM_mode` with `signInput`. -/
theorem sign_eq : u.sign c buf len sg =
    let i := signInput u buf len sg
    let saved := saveNonsignArea (u.storeNonce buf len).2 sg
    ((u.storeNonce buf len).1, restoreNonsignArea
      (c.mode i.key i.nonce i.auth saved.2 (len + 16) 0 false).1 saved.1 sg) := rfl

/-- `verifySignature` calls `CCM_mode` with `verifyInput`. -/
theorem verifySignature_eq : u.verifySignature c src buf len sg =
    let i := verifyInput u buf len sg
    let saved := saveNonsignArea buf sg
    let out := c.mode i.key i.nonce i.auth saved.2 (len + 16) 0 true
    let restored := restoreNonsignArea out.1 saved.1 sg
    ((u.verifyNonce src restored len).1, restored,
      (u.verifyNonce src restored len).2 && out.2) := rfl

/-- The input of a signature depends on the key and on the signed bytes outside of the
blocks. -/
theorem verifyInput_congr (hkey : u'.key = u.key)
    (h : ∀ i < len + 16, (¬∃ b ∈ sg, Covers b i) → buf' i = buf i) :
    verifyInput u' buf' len sg = verifyInput u buf len sg := by
  have hcleared : ∀ i < len + 16,
      (saveNonsignArea buf' sg).2 i = (saveNonsignArea buf sg).2 i := by
    intro i hi
    rw [saveNonsignArea_cleared, saveNonsignArea_cleared]
    split
    · rfl
    · exact h i hi ‹_›
  unfold verifyInput
  simp only [CcmInput.mk.injEq]
  exact ⟨hkey, Buffer.read_congr fun i _ hi => hcleared i hi,
    Buffer.read_congr fun i _ hi => hcleared i (by omega)⟩

/-- The buffer that `sign` leaves verifies with the input of `sign`. -/
theorem verifyInput_sign (hkey : u'.key = u.key) (hsg : sg.Pairwise DisjointBlocks) :
    verifyInput u' (u.sign c buf len sg).2 len sg = signInput u buf len sg := by
  refine verifyInput_congr hkey fun i hi _ => ?_
  exact restore_save hsg (mode_of_not_covers (.inl hi))

/-! ### Encryptions -/

/-- `crypt` calls `CCM_mode` with `cryptInput` if the copies fit into the buffer. -/
theorem crypt_eq (isDecrypt : Bool)
    (hfit : data + len + 16 + (16 + (sg.map MemoryBlock.size).sum) ≤ BasePacket.maxSize) :
    u.crypt c isDecrypt buf data len sg =
      let i := cryptInput u buf data len sg
      .ok (c.mode i.key i.nonce i.auth (copyBlocks buf (data + len + 16 + 16) sg) data len
        isDecrypt) :=
  if_neg (Nat.not_lt.mpr hfit)

/-- The input of an encryption in the bytes of the packet: the nonce block and the blocks of
the header. -/
theorem cryptInput_eq (hsg : ∀ b ∈ sg, b.p + b.size ≤ data) :
    cryptInput u buf data len sg =
      { key := u.key
        nonce := buf.read (data + len + 16) 16
        auth := buf.read (data + len + 16) 16 ++ sg.flatMap fun b => buf.read b.p b.size } := by
  have hcopies : (sg.flatMap fun b => buf.read b.p b.size).length
      = (sg.map MemoryBlock.size).sum := by
    rw [List.length_flatMap]
    simp
  have hread := Buffer.read_write_self buf (data + len + 16 + 16)
    (sg.flatMap fun b => buf.read b.p b.size)
  rw [hcopies] at hread
  unfold cryptInput
  simp only [CcmInput.mk.injEq, true_and]
  refine ⟨copyBlocks_read (Nat.le_refl _), ?_⟩
  rw [Buffer.read_add, copyBlocks_read (Nat.le_refl _), copyBlocks_eq sg fun b hb => by
    have := hsg b hb
    omega, hread]

/-- The input of an encryption depends on the key, the nonce block and the blocks of the
header. -/
theorem cryptInput_congr (hkey : u'.key = u.key) (hsg : ∀ b ∈ sg, b.p + b.size ≤ data)
    (hnonce : ∀ i, data + len + 16 ≤ i → i < data + len + 32 → buf' i = buf i)
    (hblocks : ∀ i, (∃ b ∈ sg, Covers b i) → buf' i = buf i) :
    cryptInput u' buf' data len sg = cryptInput u buf data len sg := by
  have hread : buf'.read (data + len + 16) 16 = buf.read (data + len + 16) 16 :=
    Buffer.read_congr hnonce
  have hcopy : (sg.flatMap fun b => buf'.read b.p b.size)
      = sg.flatMap fun b => buf.read b.p b.size :=
    List.flatMap_congr fun b hb => Buffer.read_congr fun i hlo hhi => hblocks i ⟨b, hb, hlo, hhi⟩
  rw [cryptInput_eq hsg, cryptInput_eq hsg, hkey, hread, hcopy]

/-- `encrypt` writes nothing in front of the message, and the nonce block as `storeNonce`
leaves it. -/
theorem encrypt_buffer (h : u.encrypt c buf data len sg = .ok (u', buf')) {i : Nat}
    (hi : i < data ∨ data + len + 16 ≤ i ∧ i < data + len + 32) :
    buf' i = (u.storeNonce buf (data + len + 16)).2 i := by
  unfold encrypt at h
  simp only at h
  obtain ⟨⟨out, ok⟩, hcrypt, h⟩ := bind_eq_ok.mp h
  cases h
  unfold crypt at hcrypt
  simp only at hcrypt
  split at hcrypt
  · cases hcrypt
  have hout := congrArg Prod.fst (Except.ok.inj hcrypt)
  simp only at hout
  rw [← hout, mode_of_not_covers (by omega), copyBlocks_of_lt _ (by omega)]

/-- The buffer that `encrypt` leaves decrypts with the input of `encrypt`. -/
theorem cryptInput_encrypt {v : AesCcmCryptoUnit}
    (h : u.encrypt c buf data len sg = .ok (v, buf')) (hkey : u'.key = u.key)
    (hsg : ∀ b ∈ sg, b.p + b.size ≤ data) :
    cryptInput u' buf' data len sg = encryptInput u buf data len sg := by
  refine cryptInput_congr hkey hsg ?_ ?_
  · intro i hlo hhi
    exact encrypt_buffer h (.inr ⟨hlo, hhi⟩)
  · rintro i ⟨b, hb, -, hhi⟩
    have := hsg b hb
    exact encrypt_buffer h (.inl (by omega))

/-- The bytes that `encrypt` leaves in the place of the message are what CCM makes of it. -/
theorem encrypt_cipherText (h : u.encrypt c buf data len sg = .ok (u', buf'))
    (hauth : 16 + (sg.map MemoryBlock.size).sum < Ccm.authLimit) :
    let i := encryptInput u buf data len sg
    buf'.read data (len + 16) = c.encrypt i.key i.nonce i.auth (buf.read data len) := by
  unfold encrypt at h
  simp only at h
  obtain ⟨⟨out, ok⟩, hcrypt, h⟩ := bind_eq_ok.mp h
  cases h
  unfold crypt at hcrypt
  simp only at hcrypt
  split at hcrypt
  · cases hcrypt
  have hout := congrArg Prod.fst (Except.ok.inj hcrypt)
  simp only at hout
  -- The message is what it was before `storeNonce` and the copies.
  have hmsg : (copyBlocks (u.storeNonce buf (data + len + 16)).2 (data + len + 16 + 16) sg).read
      data len = buf.read data len := by
    rw [copyBlocks_read (by omega)]
    exact Buffer.read_congr fun i _ hi => storeNonce_of_not_covers (.inl (by omega))
  unfold Ccm.mode at hout
  rw [if_neg (by rw [Buffer.length_read]; exact Nat.not_le.mpr hauth)] at hout
  simp only [Bool.false_eq_true, if_false] at hout
  have hlen := length_encrypt c (encryptInput u buf data len sg).key
    (encryptInput u buf data len sg).nonce (encryptInput u buf data len sg).auth
    (buf.read data len)
  rw [Buffer.length_read] at hlen
  intro i
  rw [← hout, hmsg, ← hlen]
  exact Buffer.read_write_self _ _ _

end Inputs

end Awds.Proofs
