import Awds.Proofs.Crypto.Inputs
import Awds.Proofs.Crypto.Nonces

/-!
# `Awds.Proofs.Crypto.RoundTrip`: `decryptDupDetect` behind `encrypt`

`decrypt_encrypt` is the round trip of the crypto unit. A packet is encrypted at its source, and
on its way the bytes of the header that are not authenticated are rewritten. A unit with the same
key gets the message back, and it accepts the packet if the number in it is new.

The key stream is added with `^^^`, so to add it twice changes nothing
(`addStream_addStream`).
-/

set_option autoImplicit false

namespace Awds.Proofs

open Awds.Lib Awds.AesCcmCryptoUnit

/-- A key stream that is added twice cancels out. -/
theorem addStream_addStream (msg stream : List UInt8) (h : msg.length = stream.length) :
    Ccm.addStream (Ccm.addStream msg stream) stream = msg := by
  unfold Ccm.addStream
  induction msg generalizing stream with
  | nil => rfl
  | cons b msg ih =>
    cases stream with
    | nil => cases h
    | cons k stream =>
      simp only [List.zipWith_cons_cons]
      rw [ih stream (Nat.succ.inj h), UInt8.xor_assoc, UInt8.xor_self, UInt8.xor_zero]

section

variable {c : Ccm} {u u' v : AesCcmCryptoUnit} {src : NodeId} {buf buf' sent got : Buffer}
  {data len noncep : Nat} {sg : List MemoryBlock}

/-- `EncryptionRight` in terms of the input of `crypt`. -/
theorem encryptionRight_iff : EncryptionRight c u buf data len sg ↔
    let i := cryptInput u buf data len sg
    i.auth.length < Ccm.authLimit ∧ buf.read (data + len) 16 = c.authValue i.key i.nonce i.auth
      (Ccm.addStream (buf.read data len) (c.keyStream i.key i.nonce len)) := by
  have hnonce : (copyBlocks buf (data + len + 16 + 16) sg).read (data + len + 16) 16
      = buf.read (data + len + 16) 16 := copyBlocks_read (Nat.le_refl _)
  unfold cryptInput
  dsimp only
  rw [hnonce]
  rfl

/-- `decryptDupDetect` returns if the copies fit into the buffer. -/
theorem decryptDupDetect_run (c : Ccm) (u : AesCcmCryptoUnit) (src : NodeId) (buf : Buffer)
    (hfit : data + len + 16 + (16 + (sg.map MemoryBlock.size).sum) ≤ BasePacket.maxSize) :
    ∃ out, u.decryptDupDetect c src buf data len sg = .ok out := by
  unfold decryptDupDetect
  rw [crypt_eq true hfit, except_bind_ok]
  dsimp only
  split
  · exact ⟨_, rfl⟩
  · exact ⟨_, rfl⟩

/-- `encrypt` returns if the copies fit into the buffer. -/
theorem encrypt_run (c : Ccm) (u : AesCcmCryptoUnit) (buf : Buffer)
    (hfit : data + len + 16 + (16 + (sg.map MemoryBlock.size).sum) ≤ BasePacket.maxSize) :
    ∃ out, u.encrypt c buf data len sg = .ok out := by
  unfold encrypt
  dsimp only
  rw [crypt_eq false hfit, except_bind_ok]
  exact ⟨_, rfl⟩

/-- The number that `encrypt` leaves in the nonce block. -/
theorem encrypt_iv (h : u.encrypt c buf data len sg = .ok (v, sent)) :
    ivAt sent (data + len + 16) = u.lastIv + 1 := by
  have hread : sent.read (data + len + 16) 8 =
      (u.storeNonce buf (data + len + 16)).2.read (data + len + 16) 8 := by
    refine Buffer.read_congr fun i hlo hhi => encrypt_buffer h (.inr ⟨hlo, ?_⟩)
    omega
  unfold ivAt
  rw [hread]
  exact storedIv_eq u buf _

/-- A number above the entry of its source is accepted. -/
theorem verifyNonce_fresh
    (h : (u.ivMap[src]?).getD (ivAt buf noncep - 1) < ivAt buf noncep) :
    (u.verifyNonce src buf noncep).2 = true := by
  have hnot : ¬(u.ivMap[src]?).getD (ivAt buf noncep - 1) ≥ ivAt buf noncep :=
    UInt64.not_le.mpr h
  unfold verifyNonce
  dsimp only
  unfold ivAt at hnot
  rw [if_neg hnot]

/-- The round trip of an encrypted message. The buffer `got` that is decrypted agrees with the
buffer that was encrypted in the message, in what is behind it, and in the blocks of the header
that are authenticated. -/
theorem decrypt_encrypt (h : u.encrypt c buf data len sg = .ok (v, sent)) (hkey : u'.key = u.key)
    (hfit : data + len + 16 + (16 + (sg.map MemoryBlock.size).sum) ≤ BasePacket.maxSize)
    (hsg : ∀ b ∈ sg, b.p + b.size ≤ data)
    (hmsg : ∀ i, data ≤ i → i < data + len + 32 → got i = sent i)
    (hblocks : ∀ i, (∃ b ∈ sg, Covers b i) → got i = sent i)
    (hfresh : (u'.ivMap[src]?).getD u.lastIv < u.lastIv + 1) :
    ∃ u'' out, u'.decryptDupDetect c src got data len sg = .ok (u'', out, true) ∧
      out.read data len = buf.read data len := by
  have hlimit : 16 + (sg.map MemoryBlock.size).sum < Ccm.authLimit := by
    have hmax : data + len + 16 + (16 + (sg.map MemoryBlock.size).sum) ≤ 4096 := hfit
    show _ < 65280
    omega
  -- the input of the encryption is that of the decryption
  have hinput : cryptInput u' got data len sg = encryptInput u buf data len sg := by
    rw [← cryptInput_encrypt h hkey hsg]
    exact cryptInput_congr rfl hsg (fun i hlo hhi => hmsg i (by omega) (by omega)) hblocks
  have hcipher := encrypt_cipherText h hlimit
  dsimp only at hcipher
  rw [← hinput] at hcipher
  generalize hi : cryptInput u' got data len sg = input at hcipher
  have hstream := length_addStream c input.key input.nonce (buf.read data len)
  rw [Buffer.length_read] at hstream
  have hgot : got.read data (len + 16) = c.encrypt input.key input.nonce input.auth
      (buf.read data len) := by
    rw [← hcipher]
    exact Buffer.read_congr fun i hlo hhi => hmsg i hlo (by omega)
  rw [Buffer.read_add, Ccm.encrypt, Buffer.length_read] at hgot
  obtain ⟨hread, hmac⟩ := List.append_inj hgot (by rw [Buffer.length_read, hstream])
  -- the key stream is added twice
  have hplain : Ccm.addStream (got.read data len) (c.keyStream input.key input.nonce len)
      = buf.read data len := by
    rw [hread]
    exact addStream_addStream _ _ (by rw [Buffer.length_read, c.length_keyStream])
  have hauth : input.auth.length = 16 + (sg.map MemoryBlock.size).sum := by
    rw [← hi]
    exact Buffer.length_read _ _ _
  have hright : EncryptionRight c u' got data len sg := by
    rw [encryptionRight_iff, hi]
    dsimp only
    rw [hplain]
    exact ⟨by rw [hauth]; exact hlimit, hmac⟩
  obtain ⟨⟨u'', out, ok⟩, hrun⟩ := decryptDupDetect_run c u' src got hfit
  obtain ⟨-, hok, hout⟩ := (decryptDupDetect_spec hrun).1 hright
  have hiv : ivAt got (data + len + 16) = u.lastIv + 1 := by
    rw [← encrypt_iv h]
    unfold ivAt
    rw [Buffer.read_congr fun i hlo hhi => hmsg i (by omega) (by omega)]
  have htrue : ok = true := by
    rw [hok]
    refine verifyNonce_fresh ?_
    rw [hiv, show u.lastIv + 1 - 1 = u.lastIv from UInt64.add_sub_cancel _ _]
    exact hfresh
  subst htrue
  refine ⟨u'', out, hrun, ?_⟩
  have hkeyed : input.key = u'.key := by rw [← hi]; rfl
  have hnonce : input.nonce = got.read (data + len + 16) 16 := by
    rw [← hi]
    exact copyBlocks_read (Nat.le_refl _)
  rw [hkeyed, hnonce] at hplain
  have hself := Buffer.read_write_self got data (Ccm.addStream (got.read data len)
    (c.keyStream u'.key (got.read (data + len + 16) 16) len))
  rw [hplain, Buffer.length_read] at hself
  rw [hplain] at hout
  rw [← hself]
  exact Buffer.read_congr fun i _ hhi => hout i (by omega)

end

end Awds.Proofs
