import Awds.Routing.Operations
import Awds.Proofs.Topology.Links

/-!
# `Awds.Proofs.Crypto.Blocks`: what the crypto unit does to a buffer

The crypto unit works in place. `sign` and `verifySignature` clear the blocks that are not
signed and put them back, `crypt` copies blocks of the header behind the nonce block, and
`CCM_mode` overwrites the message and the 16 bytes behind it.

The facts are said byte by byte. `Covers` is membership in a block. Blocks that
are disjoint are saved as they are (`saveNonsignArea_store`), and what is put back covers
exactly the blocks (`restoreNonsignArea_own`), so a signature changes nothing in front of
the nonce block (`sign_of_lt`, `verifySignature_of_lt`).

`SignatureRight` and `EncryptionRight` say when the authentication value of a packet is
right. `decryptDupDetect_spec` is the run of `decryptDupDetect` in these terms.
-/

set_option autoImplicit false

namespace Awds.Proofs

open Awds.Lib Awds.AwdsRouting Awds.AesCcmCryptoUnit

/-! ### Blocks -/

/-- The offset lies in the block. -/
def Covers (b : MemoryBlock) (i : Nat) : Prop := b.p ≤ i ∧ i < b.p + b.size

instance (b : MemoryBlock) (i : Nat) : Decidable (Covers b i) :=
  inferInstanceAs (Decidable (_ ∧ _))

/-- The two blocks have no byte in common. -/
def DisjointBlocks (a b : MemoryBlock) : Prop := ∀ i, Covers a i → ¬Covers b i

/-- A write over a block, outside of the block. -/
theorem write_of_not_covers {buf : Buffer} {b : MemoryBlock} {bs : List UInt8}
    (hlen : bs.length = b.size) {i : Nat} (h : ¬Covers b i) : buf.write b.p bs i = buf i := by
  by_cases hlo : i < b.p
  · exact Buffer.write_of_lt _ _ hlo
  · refine Buffer.write_of_ge _ _ ?_
    unfold Covers at h
    omega

/-- A write over a block, inside of the block. -/
theorem write_of_covers {buf : Buffer} {b : MemoryBlock} {bs : List UInt8} {i : Nat}
    (h : Covers b i) (hlen : bs.length = b.size) :
    buf.write b.p bs i = bs.get ⟨i - b.p, by have := h.1; have := h.2; omega⟩ := by
  obtain ⟨k, rfl⟩ : ∃ k, i = b.p + k := ⟨i - b.p, by have := h.1; omega⟩
  have hk : k < bs.length := by have := h.2; omega
  rw [Buffer.write_at _ _ _ _ hk]
  simp

section Save

variable {buf out : Buffer} {sg : List MemoryBlock} {i : Nat}

/-- The blocks are cleared and nothing else. -/
theorem saveNonsignArea_cleared (buf : Buffer) (sg : List MemoryBlock) (i : Nat) :
    (saveNonsignArea buf sg).2 i = if ∃ b ∈ sg, Covers b i then 0 else buf i := by
  induction sg generalizing buf with
  | nil => simp [saveNonsignArea]
  | cons b sg ih =>
    simp only [saveNonsignArea, ih, List.exists_mem_cons_iff]
    by_cases hb : Covers b i
    · have hzero : buf.write b.p (List.replicate b.size 0) i = 0 := by
        rw [write_of_covers hb (by simp)]
        simp
      simp [hb, hzero]
    · have hkeep : buf.write b.p (List.replicate b.size 0) i = buf i :=
        write_of_not_covers (by simp) hb
      simp [hb, hkeep]

/-- Disjoint blocks are saved as they are. -/
theorem saveNonsignArea_store (buf : Buffer) (hsg : sg.Pairwise DisjointBlocks) :
    (saveNonsignArea buf sg).1 = sg.map fun b => buf.read b.p b.size := by
  induction sg generalizing buf with
  | nil => rfl
  | cons b sg ih =>
    obtain ⟨hb, hrest⟩ := List.pairwise_cons.mp hsg
    simp only [saveNonsignArea, ih _ hrest, List.map_cons, List.cons.injEq, true_and]
    refine List.map_congr_left fun b' hb' => Buffer.read_congr fun i hlo hhi => ?_
    exact write_of_not_covers (by simp) fun hc => hb b' hb' i hc ⟨hlo, hhi⟩

/-- What is put back covers exactly the blocks. -/
theorem restoreNonsignArea_own (buf out : Buffer) (sg : List MemoryBlock) (i : Nat) :
    restoreNonsignArea out (sg.map fun b => buf.read b.p b.size) sg i
      = if ∃ b ∈ sg, Covers b i then buf i else out i := by
  unfold restoreNonsignArea
  induction sg generalizing out with
  | nil => simp
  | cons b sg ih =>
    simp only [List.map_cons, List.zip_cons_cons, List.foldl_cons, ih,
      List.exists_mem_cons_iff]
    by_cases hb : Covers b i
    · have hback : out.write b.p (buf.read b.p b.size) i = buf i := by
        rw [write_of_covers hb (by simp)]
        have := hb.1
        simp [Buffer.read, Nat.add_sub_cancel' this]
      simp [hb, hback]
    · have hkeep : out.write b.p (buf.read b.p b.size) i = out i :=
        write_of_not_covers (by simp) hb
      simp [hb, hkeep]

/-- A block that is cleared and put back leaves no trace, whatever happens in between
outside of the blocks. -/
theorem restore_save (hsg : sg.Pairwise DisjointBlocks)
    (hout : out i = (saveNonsignArea buf sg).2 i) :
    restoreNonsignArea out (saveNonsignArea buf sg).1 sg i = buf i := by
  rw [saveNonsignArea_store buf hsg, restoreNonsignArea_own, hout, saveNonsignArea_cleared]
  split <;> rfl

end Save

/-- The one block of a flood packet that is not signed. -/
theorem pairwise_noSign : noSign.Pairwise DisjointBlocks := List.pairwise_singleton _ _

/-- The area that is not signed: the last hop and the TTL. -/
theorem covers_noSign {i : Nat} : (∃ b ∈ noSign, Covers b i) ↔ 9 ≤ i ∧ i < 16 := by
  rw [noSign, List.exists_mem_cons_iff]
  exact ⟨fun h => h.elim id fun h => by simp at h, .inl⟩

/-- The copies of the blocks lie one behind the other. -/
theorem copyBlocks_eq (sg : List MemoryBlock) {buf : Buffer} {e : Nat}
    (h : ∀ b ∈ sg, b.p + b.size ≤ e) :
    copyBlocks buf e sg = buf.write e (sg.flatMap fun b => buf.read b.p b.size) := by
  induction sg generalizing buf e with
  | nil =>
    funext i
    by_cases hi : i < e
    · exact (Buffer.write_of_lt _ _ hi).symm
    · exact (Buffer.write_of_ge _ _ (by simpa using hi)).symm
  | cons b sg ih =>
    obtain ⟨hb, hrest⟩ := List.forall_mem_cons.mp h
    rw [copyBlocks, ih fun b' hb' => (hrest b' hb').trans (Nat.le_add_right _ _)]
    -- The blocks lie in front of the copies, so they read as before.
    have hread : (sg.flatMap fun b' => (buf.write e (buf.read b.p b.size)).read b'.p b'.size)
        = sg.flatMap fun b' => buf.read b'.p b'.size :=
      List.flatMap_congr fun b' hb' => Buffer.read_write_disjoint _ _ (.inl (hrest b' hb'))
    have happend := Buffer.write_write_append buf e (buf.read b.p b.size)
      (sg.flatMap fun b' => buf.read b'.p b'.size)
    rw [Buffer.length_read] at happend
    rw [hread, happend, List.flatMap_cons]

/-- The copies change nothing in front of them. -/
theorem copyBlocks_of_lt (sg : List MemoryBlock) {buf : Buffer} {e i : Nat} (hi : i < e) :
    copyBlocks buf e sg i = buf i := by
  induction sg generalizing buf e with
  | nil => rfl
  | cons b sg ih => rw [copyBlocks, ih (by omega), Buffer.write_of_lt _ _ hi]

/-! ### CCM -/

section Mode

variable {c : Ccm} {key nonce auth : List UInt8} {buf : Buffer} {off len : Nat}
  {isDecrypt : Bool} {i : Nat}

/-- Adding the key stream keeps the length. -/
theorem length_addStream (c : Ccm) (key nonce msg : List UInt8) :
    (Ccm.addStream msg (c.keyStream key nonce msg.length)).length = msg.length := by
  simp [Ccm.addStream, c.length_keyStream]

/-- A decryption replaces the message and the 16 bytes behind it. -/
theorem length_decrypt (c : Ccm) (key nonce auth msg : List UInt8) {mac : List UInt8}
    (hmac : mac.length = 16) :
    (c.decrypt key nonce auth msg mac).2.length = msg.length + 16 := by
  unfold Ccm.decrypt
  simp only
  split
  · rw [List.length_append, length_addStream, hmac]
  · exact List.length_replicate

/-- An encryption does, too. -/
theorem length_encrypt (c : Ccm) (key nonce auth msg : List UInt8) :
    (c.encrypt key nonce auth msg).length = msg.length + 16 := by
  rw [Ccm.encrypt, List.length_append, length_addStream, c.length_authValue]

/-- `CCM_mode` writes nothing but the message and the 16 bytes behind it. -/
theorem mode_of_not_covers (h : i < off ∨ off + len + 16 ≤ i) :
    (c.mode key nonce auth buf off len isDecrypt).1 i = buf i := by
  have hwrite : ∀ out : List UInt8, out.length = len + 16 → buf.write off out i = buf i := by
    intro out hout
    rcases h with h | h
    · exact Buffer.write_of_lt _ _ h
    · exact Buffer.write_of_ge _ _ (by omega)
  unfold Ccm.mode
  split
  · rfl
  simp only
  split
  · refine hwrite _ ?_
    rw [length_decrypt _ _ _ _ _ (by simp)]
    simp
  · refine hwrite _ ?_
    rw [length_encrypt]
    simp

/-- `CCM_mode` accepts a message exactly if its authentication value is right. -/
theorem mode_ok_iff : (c.mode key nonce auth buf off len true).2 = true ↔
    auth.length < Ccm.authLimit ∧ buf.read (off + len) 16 = c.authValue key nonce auth
      (Ccm.addStream (buf.read off len) (c.keyStream key nonce len)) := by
  unfold Ccm.mode
  split
  · rename_i hauth
    simp [Nat.not_lt.mpr hauth]
  · rename_i hauth
    simp only [if_true, Ccm.decrypt, Buffer.length_read, Nat.not_le.mp hauth, true_and]
    split <;> simp_all

/-- A decryption that succeeds takes the key stream off the message. -/
theorem mode_ok_buffer (h : (c.mode key nonce auth buf off len true).2 = true) :
    (c.mode key nonce auth buf off len true).1 =
      buf.write off (Ccm.addStream (buf.read off len) (c.keyStream key nonce len)) := by
  obtain ⟨hauth, hmac⟩ := mode_ok_iff.mp h
  have hlen := length_addStream c key nonce (buf.read off len)
  rw [Buffer.length_read] at hlen
  have hown := Buffer.write_append_own buf off
    (Ccm.addStream (buf.read off len) (c.keyStream key nonce len)) 16
  rw [hlen] at hown
  unfold Ccm.mode
  rw [if_neg (Nat.not_le.mpr hauth)]
  simp only [if_true, Ccm.decrypt, Buffer.length_read]
  rw [if_pos hmac]
  exact hown

/-- A decryption that fails clears the message and the authentication value. -/
theorem mode_refused_buffer (hauth : auth.length < Ccm.authLimit)
    (h : (c.mode key nonce auth buf off len true).2 = false) :
    (c.mode key nonce auth buf off len true).1 =
      buf.write off (List.replicate (len + 16) 0) := by
  have hmac : ¬buf.read (off + len) 16 = c.authValue key nonce auth
      (Ccm.addStream (buf.read off len) (c.keyStream key nonce len)) := by
    intro hmac
    rw [mode_ok_iff.mpr ⟨hauth, hmac⟩] at h
    cases h
  unfold Ccm.mode
  rw [if_neg (Nat.not_le.mpr hauth)]
  simp only [if_true, Ccm.decrypt, Buffer.length_read]
  rw [if_neg hmac]

end Mode

/-- A cipher that leaves messages as they are. -/
def nullCcm : Ccm where
  keyStream _ _ n := List.replicate n 0
  authValue _ _ _ _ := List.replicate 16 0
  length_keyStream _ _ _ := List.length_replicate
  length_authValue _ _ _ _ := List.length_replicate

/-! ### Signatures -/

section Sign

variable {c : Ccm} {u : AesCcmCryptoUnit} {src : NodeId} {buf : Buffer} {len i : Nat}
  {sg : List MemoryBlock}

/-- `storeNonce` writes the 16 bytes of the nonce block at most. -/
theorem storeNonce_of_not_covers {noncep : Nat} (h : i < noncep ∨ noncep + 16 ≤ i) :
    (u.storeNonce buf noncep).2 i = buf i := by
  have hlen : (u.nonce.take 8).length ≤ 8 := by simp
  show (buf.write (noncep + 8) (u.nonce.take 8)).write noncep
    (toBigEndian 8 (u.lastIv + 1).toNat) i = buf i
  rcases h with h | h
  · rw [Buffer.write_of_lt _ _ h, Buffer.write_of_lt _ _ (by omega)]
  · rw [Buffer.write_of_ge _ _ (by rw [length_toBigEndian]; omega),
      Buffer.write_of_ge _ _ (by omega)]

/-- `sign` leaves the bytes that it signs as they are. -/
theorem sign_of_lt (hsg : sg.Pairwise DisjointBlocks) (hi : i < len) :
    (u.sign c buf len sg).2 i = buf i := by
  have hnonce : (u.storeNonce buf len).2 i = buf i := storeNonce_of_not_covers (.inl hi)
  rw [← hnonce]
  exact restore_save hsg (mode_of_not_covers (.inl (by omega)))

/-- `verifySignature` leaves the signed bytes as they are, whether it accepts them or not. -/
theorem verifySignature_of_lt (hsg : sg.Pairwise DisjointBlocks) (hi : i < len + 16) :
    (u.verifySignature c src buf len sg).2.1 i = buf i :=
  restore_save hsg (mode_of_not_covers (.inl hi))

/-- `verifySignature` leaves a buffer whose signature is right as it is. -/
theorem verifySignature_ok (hsg : sg.Pairwise DisjointBlocks)
    (h : (u.verifySignature c src buf len sg).2.2 = true) :
    (u.verifySignature c src buf len sg).2.1 = buf := by
  unfold verifySignature at h ⊢
  simp only [Bool.and_eq_true] at h ⊢
  rw [mode_ok_buffer h.2]
  funext i
  refine restore_save hsg ?_
  simp [Buffer.read, Ccm.addStream]

/-- `verifyNonce` reads the `iv` only. -/
theorem verifyNonce_congr {buf' : Buffer} {noncep : Nat}
    (h : ∀ i, noncep ≤ i → i < noncep + 8 → buf' i = buf i) :
    u.verifyNonce src buf' noncep = u.verifyNonce src buf noncep := by
  unfold verifyNonce
  rw [Buffer.read_congr h]

/-- The authentication value of a signed buffer is right. -/
def SignatureRight (c : Ccm) (u : AesCcmCryptoUnit) (buf : Buffer) (len : Nat)
    (sg : List MemoryBlock) : Prop :=
  let cleared := (saveNonsignArea buf sg).2
  len + 16 < Ccm.authLimit ∧
    cleared.read (len + 16) 16 =
      c.authValue u.key (cleared.read len 16) (cleared.read 0 (len + 16)) []

/-- `verifySignature` accepts a buffer exactly if its signature is right and its nonce is
new. -/
theorem verifySignature_accepts_iff (hsg : sg.Pairwise DisjointBlocks) :
    (u.verifySignature c src buf len sg).2.2 = true ↔
      SignatureRight c u buf len sg ∧ (u.verifyNonce src buf len).2 = true := by
  unfold verifySignature
  simp only [Bool.and_eq_true]
  rw [verifyNonce_congr fun i _ hi => restore_save hsg (mode_of_not_covers (.inl (by omega))),
    mode_ok_iff, and_comm]
  simp [SignatureRight, Ccm.addStream, Buffer.read]

/-- The unit behind `verifySignature` is the one behind the check of the nonce. -/
theorem verifySignature_unit (hsg : sg.Pairwise DisjointBlocks) :
    (u.verifySignature c src buf len sg).1 = (u.verifyNonce src buf len).1 := by
  unfold verifySignature
  simp only
  rw [verifyNonce_congr fun i _ hi => restore_save hsg (mode_of_not_covers (.inl (by omega)))]

/-- The authentication value of an encrypted message is right. The authenticated bytes are
those behind the message once the blocks are copied there. -/
def EncryptionRight (c : Ccm) (u : AesCcmCryptoUnit) (buf : Buffer) (data len : Nat)
    (sg : List MemoryBlock) : Prop :=
  let copied := copyBlocks buf (data + len + 16 + 16) sg
  let auth := copied.read (data + len + 16) (16 + (sg.map MemoryBlock.size).sum)
  auth.length < Ccm.authLimit ∧
    buf.read (data + len) 16 = c.authValue u.key (buf.read (data + len + 16) 16) auth
      (Ccm.addStream (buf.read data len) (c.keyStream u.key (buf.read (data + len + 16) 16) len))

/-- The bytes in front of the copies read as before. -/
theorem copyBlocks_read {e off n : Nat} (h : off + n ≤ e) :
    (copyBlocks buf e sg).read off n = buf.read off n :=
  Buffer.read_congr fun _ _ hi => copyBlocks_of_lt sg (by omega)

/-- The copies are not seen through a write that lies in front of them. -/
theorem write_copyBlocks {e off i : Nat} (bs : List UInt8) (hi : i < e) :
    (copyBlocks buf e sg).write off bs i = buf.write off bs i := by
  unfold Buffer.write
  rw [copyBlocks_of_lt sg hi]

/-- The run of `decryptDupDetect`: the message is accepted if its authentication value is
right and its nonce is new, the unit changes only in the check of the nonce, and the bytes
in front of the copies change only where `CCM_mode` writes. -/
theorem decryptDupDetect_spec {u' : AesCcmCryptoUnit} {buf' : Buffer} {ok : Bool}
    {data : Nat} (h : u.decryptDupDetect c src buf data len sg = .ok (u', buf', ok)) :
    (EncryptionRight c u buf data len sg →
      u' = (u.verifyNonce src buf (data + len + 16)).1 ∧
      ok = (u.verifyNonce src buf (data + len + 16)).2 ∧
      ∀ i < data + len + 32, buf' i = buf.write data
        (Ccm.addStream (buf.read data len)
          (c.keyStream u.key (buf.read (data + len + 16) 16) len)) i) ∧
    (¬EncryptionRight c u buf data len sg → u' = u ∧ ok = false ∧
      (16 + (sg.map MemoryBlock.size).sum < Ccm.authLimit → ∀ i < data + len + 32,
        buf' i = buf.write data (List.replicate (len + 16) 0) i)) := by
  obtain ⟨⟨out, okMac⟩, hcrypt, h⟩ := bind_eq_ok.mp h
  unfold crypt at hcrypt
  simp only at hcrypt
  split at hcrypt
  · cases hcrypt
  have hmode := Except.ok.inj hcrypt
  have hnonce : (copyBlocks buf (data + len + 16 + 16) sg).read (data + len + 16) 16
      = buf.read (data + len + 16) 16 := copyBlocks_read (by omega)
  have hmac : (copyBlocks buf (data + len + 16 + 16) sg).read (data + len) 16
      = buf.read (data + len) 16 := copyBlocks_read (by omega)
  have hmsg : (copyBlocks buf (data + len + 16 + 16) sg).read data len = buf.read data len :=
    copyBlocks_read (by omega)
  rw [hnonce] at hmode
  -- The flag of `CCM_mode` is the value of the packet.
  have hok : okMac = true ↔ EncryptionRight c u buf data len sg := by
    have hflag := congrArg Prod.snd hmode
    simp only at hflag
    rw [← hflag, mode_ok_iff, hmac, hmsg]
    rfl
  have hbuf := congrArg Prod.fst hmode
  have hflag := congrArg Prod.snd hmode
  simp only at hbuf hflag
  constructor
  · intro hright
    have hokMac := hok.mpr hright
    rw [mode_ok_buffer (hflag.trans hokMac), hmsg] at hbuf
    have hbytes : ∀ i < data + len + 32, out i = buf.write data
        (Ccm.addStream (buf.read data len)
          (c.keyStream u.key (buf.read (data + len + 16) 16) len)) i := by
      intro i hi
      rw [← hbuf]
      exact write_copyBlocks _ hi
    -- The nonce lies behind the message and its authentication value.
    have hfresh : u.verifyNonce src out (data + len + 16)
        = u.verifyNonce src buf (data + len + 16) := by
      refine verifyNonce_congr fun i hlo hhi => ?_
      rw [hbytes i (by omega)]
      refine Buffer.write_of_ge _ _ ?_
      have hstream := length_addStream c u.key (buf.read (data + len + 16) 16) (buf.read data len)
      rw [Buffer.length_read] at hstream
      omega
    simp only [hokMac] at h
    cases h
    exact ⟨by rw [hfresh], by rw [hfresh], hbytes⟩
  · intro hwrong
    have hokMac : okMac = false := by
      by_contra hne
      exact hwrong (hok.mp (by simpa using hne))
    simp only [hokMac] at h
    cases h
    refine ⟨rfl, rfl, fun hlimit i hi => ?_⟩
    rw [mode_refused_buffer (by simpa using hlimit) (hflag.trans hokMac)] at hbuf
    rw [← hbuf]
    exact write_copyBlocks _ hi

/-- `decryptDupDetect` writes nothing in front of the message. -/
theorem decryptDupDetect_of_lt {u' : AesCcmCryptoUnit} {buf' : Buffer} {ok : Bool}
    {data : Nat} (h : u.decryptDupDetect c src buf data len sg = .ok (u', buf', ok))
    (hi : i < data) : buf' i = buf i := by
  obtain ⟨⟨out, okMac⟩, hcrypt, h⟩ := bind_eq_ok.mp h
  -- Both results of the nonce check return the buffer that `crypt` has left.
  have hout : buf' = out := by
    simp only at h
    split at h <;> cases h <;> rfl
  unfold crypt at hcrypt
  simp only at hcrypt
  split at hcrypt
  · cases hcrypt
  have hmode := congrArg Prod.fst (Except.ok.inj hcrypt)
  simp only at hmode
  rw [hout, ← hmode, mode_of_not_covers (.inl hi), copyBlocks_of_lt _ (by omega)]

end Sign

end Awds.Proofs
