import Awds.CryptoTrace
import Awds.Proofs.Crypto.Blocks

/-!
# `Awds.Proofs.Crypto.Writes`: how far signatures and encryptions write

The traced functions compute what `sign` and `encrypt` do (`signTraced_result`,
`encryptTraced_result`). A signature writes up to the end of the 32 bytes that are appended
(`sign_below`). An encryption copies the authenticated blocks behind these
(`encrypt_below`).
-/

set_option autoImplicit false

namespace Awds.Proofs

open Awds.Lib Awds.AesCcmCryptoUnit

variable {c : Ccm} {u : AesCcmCryptoUnit} {buf : Buffer} {sg : List MemoryBlock}
  {data len bound : Nat}

/-! ### The results -/

/-- Recording a write changes nothing about its result. -/
theorem writeTraced_result (buf : Buffer) (off : Nat) (bs : List UInt8) :
    (writeTraced buf off bs).result = .ok (buf.write off bs) := rfl

/-- The nonce is stored in two such writes. -/
theorem storeNonceTraced_result (u : AesCcmCryptoUnit) (buf : Buffer) (noncep : Nat) :
    (u.storeNonceTraced buf noncep).result = .ok (u.storeNonce buf noncep) := rfl

/-- Saving the blocks that are not signed, by induction on their list. -/
theorem saveNonsignAreaTraced_result (buf : Buffer) (sg : List MemoryBlock) :
    (saveNonsignAreaTraced buf sg).result = .ok (saveNonsignArea buf sg) := by
  induction sg generalizing buf with
  | nil => rfl
  | cons b sg ih =>
    rw [saveNonsignAreaTraced, Traced.result_bind_of_ok (writeTraced_result _ _ _),
      Traced.result_bind_of_ok (ih _)]
    rfl

/-- Writing them back, by induction on the list of saved blocks. -/
theorem restoreNonsignAreaTraced_result (buf : Buffer) (es : List (MemoryBlock × List UInt8)) :
    (restoreNonsignAreaTraced buf es).result
      = .ok (es.foldl (fun buf e => buf.write e.1.p e.2) buf) := by
  induction es generalizing buf with
  | nil => rfl
  | cons e es ih =>
    rw [restoreNonsignAreaTraced, Traced.result_bind_of_ok (writeTraced_result _ _ _), ih]
    rfl

/-- Copying the signed blocks behind the data. -/
theorem copyBlocksTraced_result (buf : Buffer) (authEnd : Nat) (sg : List MemoryBlock) :
    (copyBlocksTraced buf authEnd sg).result = .ok (copyBlocks buf authEnd sg) := by
  induction sg generalizing buf authEnd with
  | nil => rfl
  | cons b sg ih =>
    rw [copyBlocksTraced, Traced.result_bind_of_ok (writeTraced_result _ _ _), ih]
    rfl

/-- The traced `CCM_mode` leaves the buffer that the untraced one leaves. -/
theorem modeTraced_result (c : Ccm) (key nonce auth : List UInt8) (buf : Buffer) (off len : Nat) :
    (c.modeTraced key nonce auth buf off len).result
      = .ok (c.mode key nonce auth buf off len false).1 := by
  unfold Ccm.modeTraced Ccm.mode
  split
  · rfl
  · rfl

/-- The steps of `sign`, one after the other. -/
theorem signTraced_result (c : Ccm) (u : AesCcmCryptoUnit) (buf : Buffer) (len : Nat)
    (sg : List MemoryBlock) : (u.signTraced c buf len sg).result = .ok (u.sign c buf len sg) := by
  rw [signTraced, Traced.result_bind_of_ok (storeNonceTraced_result _ _ _),
    Traced.result_bind_of_ok (saveNonsignAreaTraced_result _ _),
    Traced.result_bind_of_ok (modeTraced_result _ _ _ _ _ _ _),
    Traced.result_bind_of_ok (restoreNonsignAreaTraced_result _ _)]
  rfl

/-- As long as the copies fit into the packet. -/
theorem encryptTraced_result (c : Ccm) (u : AesCcmCryptoUnit) (buf : Buffer)
    (h : data + len + cryptoLen + (sg.map MemoryBlock.size).sum ≤ BasePacket.maxSize) :
    (u.encryptTraced c buf data len sg).result = u.encrypt c buf data len sg := by
  have hroom : ¬BasePacket.maxSize < data + len + 16 + (16 + (sg.map MemoryBlock.size).sum) := by
    have hlen : cryptoLen = 32 := rfl
    omega
  rw [encryptTraced, Traced.result_bind_of_ok (storeNonceTraced_result _ _ _),
    Traced.result_bind_of_ok (copyBlocksTraced_result _ _ _),
    Traced.result_bind_of_ok (modeTraced_result _ _ _ _ _ _ _)]
  unfold encrypt crypt
  dsimp only
  rw [if_neg hroom]
  rfl

/-! ### The extents -/

/-- Every write ends at `bound` at the latest. -/
def WritesBelow {α : Type} (bound : Nat) (x : Written α) : Prop :=
  x.All fun e => e.off + e.size ≤ bound

variable {α β : Type}

/-- A step without a write ends anywhere. -/
theorem below_pure (a : α) : WritesBelow bound (pure a : Written α) := Traced.all_pure

/-- The writes of a sequence are those of its parts. -/
theorem WritesBelow.bind {x : Written α} {f : α → Written β} (hx : WritesBelow bound x)
    (hf : ∀ a, x.result = .ok a → WritesBelow bound (f a)) : WritesBelow bound (x >>= f) :=
  Traced.all_bind.mpr ⟨hx, hf⟩

/-- A larger bound is met by the same writes. -/
theorem WritesBelow.mono {x : Written α} {bound' : Nat} (hx : WritesBelow bound x)
    (h : bound ≤ bound') : WritesBelow bound' x :=
  fun e he => (hx e he).trans h

/-- One write ends behind its last byte. -/
theorem write_below {off : Nat} {bs : List UInt8} (h : off + bs.length ≤ bound) :
    WritesBelow bound (writeTraced buf off bs) := by
  simpa [WritesBelow, Traced.All, writeTraced] using h

/-- The nonce has 16 bytes: eight of its own and eight of the `iv`. -/
theorem storeNonce_below {noncep : Nat} (h : noncep + 16 ≤ bound) :
    WritesBelow bound (u.storeNonceTraced buf noncep) := by
  refine (write_below ?_).bind fun _ _ => (write_below ?_).bind fun _ _ => below_pure _
  · have hlen : (u.nonce.take 8).length ≤ 8 := List.length_take_le _ _
    omega
  · rw [length_toBigEndian]
    omega

/-- A saved block is overwritten with zeros in its place. -/
theorem saveNonsignArea_below (h : ∀ b ∈ sg, b.p + b.size ≤ bound) :
    WritesBelow bound (saveNonsignAreaTraced buf sg) := by
  induction sg generalizing buf with
  | nil => exact below_pure _
  | cons b sg ih =>
    obtain ⟨hb, hrest⟩ := List.forall_mem_cons.mp h
    refine (write_below ?_).bind fun _ _ => (ih hrest).bind fun _ _ => below_pure _
    rwa [List.length_replicate]

/-- What is put back is as long as its block. -/
theorem length_store (buf : Buffer) (sg : List MemoryBlock) :
    ∀ e ∈ sg.zip (saveNonsignArea buf sg).1, e.1 ∈ sg ∧ e.2.length = e.1.size := by
  induction sg generalizing buf with
  | nil => simp
  | cons b sg ih =>
    intro e he
    rcases List.mem_cons.mp he with rfl | he
    · exact ⟨List.mem_cons_self, Buffer.length_read _ _ _⟩
    · obtain ⟨hmem, hlen⟩ := ih _ e he
      exact ⟨List.mem_cons_of_mem _ hmem, hlen⟩

/-- A block that is written back is as long as the saved one. -/
theorem restoreNonsignArea_below {es : List (MemoryBlock × List UInt8)}
    (h : ∀ e ∈ es, e.1.p + e.2.length ≤ bound) :
    WritesBelow bound (restoreNonsignAreaTraced buf es) := by
  induction es generalizing buf with
  | nil => exact below_pure _
  | cons e es ih =>
    obtain ⟨he, hrest⟩ := List.forall_mem_cons.mp h
    exact (write_below he).bind fun _ _ => ih hrest

/-- The copies end where the sum of their sizes does. -/
theorem copyBlocks_below {authEnd : Nat}
    (h : authEnd + (sg.map MemoryBlock.size).sum ≤ bound) :
    WritesBelow bound (copyBlocksTraced buf authEnd sg) := by
  induction sg generalizing buf authEnd with
  | nil => exact below_pure _
  | cons b sg ih =>
    rw [List.map_cons, List.sum_cons] at h
    refine (write_below ?_).bind fun _ _ => ih (by omega)
    rw [Buffer.length_read]
    omega

/-- `CCM_mode` writes the data and the authentication value of 16 bytes behind it, or nothing if the
initialisation fails. -/
theorem mode_below {key nonce auth : List UInt8} {off : Nat} (h : off + len + 16 ≤ bound) :
    WritesBelow bound (c.modeTraced key nonce auth buf off len) := by
  unfold Ccm.modeTraced
  split
  · exact below_pure _
  · refine write_below ?_
    rw [length_encrypt, Buffer.length_read]
    exact h

/-- A signature of `len` bytes ends 32 bytes behind them. -/
theorem sign_below (hsg : ∀ b ∈ sg, b.p + b.size ≤ len) :
    WritesBelow (len + cryptoLen) (u.signTraced c buf len sg) := by
  have hlen : cryptoLen = 32 := rfl
  have hblocks : ∀ b ∈ sg, b.p + b.size ≤ len + cryptoLen :=
    fun b hb => (hsg b hb).trans (Nat.le_add_right _ _)
  refine (storeNonce_below (by omega)).bind fun x _ => ?_
  refine (saveNonsignArea_below hblocks).bind fun y hy => ?_
  refine (mode_below (by omega)).bind fun z _ => ?_
  refine (restoreNonsignArea_below fun e he => ?_).bind fun _ _ => below_pure _
  rw [saveNonsignAreaTraced_result] at hy
  cases hy
  obtain ⟨hmem, hsize⟩ := length_store _ _ e he
  rw [hsize]
  exact hblocks _ hmem

/-- The copies of the authenticated blocks lie behind the 32 bytes of an encryption. -/
theorem encrypt_below :
    WritesBelow (data + len + cryptoLen + (sg.map MemoryBlock.size).sum)
      (u.encryptTraced c buf data len sg) := by
  have hlen : cryptoLen = 32 := rfl
  refine (storeNonce_below (by omega)).bind fun x _ => ?_
  refine (copyBlocks_below (by omega)).bind fun y _ => ?_
  exact (mode_below (by omega)).bind fun _ _ => below_pure _

end Awds.Proofs
