import Awds.Proofs.Crypto.Blocks

/-!
# `Awds.Proofs.Crypto.Nonces`: the counters of the crypto unit

A crypto unit keeps two counters per packet that it handles: `lastIv`, from which it numbers
its own packets, and an entry of `ivMap` for each source, below which it refuses packets.
`verifyNonce` moves both, and it is called by `verifySignature` and `decryptDupDetect`.

* `refused_keeps_iff`: a packet that is refused should leave both counters alone. It does so
  in `decryptDupDetect`, which looks at the authentication value first. `verifySignature`
  calls `verifyNonce` in any case, so a forged packet with a new `iv` moves the counters.
  Both fail for an `iv` of 0 of an unknown source, whose predecessor wraps.
* `sentIvs_increasing`: the numbers of the own packets increase as long as no packet is sent
  while `lastIv` has its largest value. A received packet can set it to that.
* `acceptedIvs_increasing`: the numbers of the packets accepted from one source increase in
  every run.

`CryptoRun` is a run of one unit, with the numbers it has written and those it has accepted.
-/

set_option autoImplicit false

namespace Awds.Proofs

open Std (ExtTreeMap)
open Awds.Lib Awds.AwdsRouting Awds.AesCcmCryptoUnit

/-- The `iv` in a nonce block. -/
def ivAt (buf : Buffer) (noncep : Nat) : UInt64 := UInt64.ofNat (ofBigEndian (buf.read noncep 8))

/-- The counters of the two units are the same. -/
def SameCounters (u u' : AesCcmCryptoUnit) : Prop := u'.ivMap = u.ivMap ∧ u'.lastIv = u.lastIv

section Nonce

variable {u : AesCcmCryptoUnit} {src : NodeId} {buf : Buffer} {noncep : Nat}

/-- `verifyNonce` for a source whose entry is `v`. -/
theorem verifyNonce_known {v : UInt64} (hv : u.ivMap[src]? = some v) :
    u.verifyNonce src buf noncep =
      if ivAt buf noncep ≤ v then (u, false)
      else ({ u with
        ivMap := u.ivMap.insert src (ivAt buf noncep)
        lastIv := if u.lastIv < ivAt buf noncep then ivAt buf noncep else u.lastIv }, true) := by
  have hsame : u.ivMap.insert src v = u.ivMap := by
    refine ExtTreeMap.ext_getElem? fun k => ?_
    rw [ExtTreeMap.getElem?_insert]
    split
    · rename_i hk
      rw [← compare_eq_iff_eq.mp hk, hv]
    · rfl
  unfold verifyNonce
  simp only [hv, Option.getD_some, ge_iff_le, gt_iff_lt]
  rw [hsame]
  rfl

/-- `verifyNonce` for a source without an entry. Only an `iv` of 0 is refused, and it leaves
the largest number behind. -/
theorem verifyNonce_unknown (hv : u.ivMap[src]? = none) :
    u.verifyNonce src buf noncep =
      if ivAt buf noncep = 0 then ({ u with ivMap := u.ivMap.insert src (0 - 1) }, false)
      else ({ u with
        ivMap := u.ivMap.insert src (ivAt buf noncep)
        lastIv := if u.lastIv < ivAt buf noncep then ivAt buf noncep else u.lastIv }, true) := by
  have hpred : ivAt buf noncep ≤ ivAt buf noncep - 1 ↔ ivAt buf noncep = 0 := by
    generalize ivAt buf noncep = iv
    rw [UInt64.le_iff_toNat_le, ← UInt64.toNat_inj, UInt64.toNat_sub]
    have := iv.toNat_lt
    simp
    omega
  unfold verifyNonce
  simp only [hv, Option.getD_none, ge_iff_le, gt_iff_lt]
  show (if ivAt buf noncep ≤ ivAt buf noncep - 1 then _ else _) = _
  by_cases h0 : ivAt buf noncep = 0
  · rw [if_pos (hpred.mpr h0), if_pos h0]
    have h0' : UInt64.ofNat (ofBigEndian (buf.read noncep 8)) = 0 := h0
    rw [h0']
  · rw [if_neg fun h => h0 (hpred.mp h), if_neg h0]
    rfl

/-- The counters stay exactly if the source is known and its entry is not below the `iv`. -/
theorem verifyNonce_sameCounters_iff :
    SameCounters u (u.verifyNonce src buf noncep).1 ↔
      ∃ v, u.ivMap[src]? = some v ∧ ivAt buf noncep ≤ v := by
  -- An entry that is written differs from the one that was there.
  have hwrite : ∀ w l, SameCounters u { u with ivMap := u.ivMap.insert src w, lastIv := l } →
      u.ivMap[src]? = some w := by
    intro w l h
    rw [← h.1]
    simp
  cases hv : u.ivMap[src]? with
  | none =>
    rw [verifyNonce_unknown hv]
    constructor
    · intro h
      split at h
      · rw [hwrite _ _ h] at hv
        cases hv
      · rw [hwrite _ _ h] at hv
        cases hv
    · rintro ⟨v, hsome, -⟩
      cases hsome
  | some v =>
    rw [verifyNonce_known hv]
    constructor
    · intro h
      split at h
      · rename_i hle
        exact ⟨v, rfl, hle⟩
      · rename_i hlt
        have heq := hwrite _ _ h
        rw [hv] at heq
        exact absurd (by rw [Option.some.inj heq]; exact UInt64.le_refl _) hlt
    · rintro ⟨w, hw, hle⟩
      cases hw
      rw [if_pos hle]
      exact ⟨rfl, rfl⟩

/-- The nonce is refused exactly if the entry of the source is not below it, or if it is the
number 0 of an unknown source. -/
theorem verifyNonce_refused_iff :
    (u.verifyNonce src buf noncep).2 = false ↔
      (∃ v, u.ivMap[src]? = some v ∧ ivAt buf noncep ≤ v) ∨
        (u.ivMap[src]? = none ∧ ivAt buf noncep = 0) := by
  cases hv : u.ivMap[src]? with
  | none =>
    rw [verifyNonce_unknown hv]
    split <;> simp_all
  | some v =>
    rw [verifyNonce_known hv]
    split <;> simp_all

end Nonce

/-! ### Refused packets -/

section Refused

variable {c : Ccm} {u : AesCcmCryptoUnit} {src : NodeId} {buf : Buffer} {len : Nat}
  {sg : List MemoryBlock}

/-- The entry of the source is not below the `iv`. -/
def Stale (u : AesCcmCryptoUnit) (src : NodeId) (iv : UInt64) : Prop :=
  ∃ v, u.ivMap[src]? = some v ∧ iv ≤ v

/-- The number 0 of an unknown source. -/
def FirstZero (u : AesCcmCryptoUnit) (src : NodeId) (iv : UInt64) : Prop :=
  u.ivMap[src]? = none ∧ iv = 0

/-- An unknown source has no entry that is not below. -/
theorem FirstZero.not_stale {iv : UInt64} (h : FirstZero u src iv) : ¬Stale u src iv := by
  rintro ⟨v, hv, -⟩
  rw [h.1] at hv
  cases hv

/-- `verifySignature` keeps the counters when it refuses a buffer exactly if the entry of the
source is not below the `iv`, or the signature is right and it is not the number 0 of an
unknown source. -/
theorem verifySignature_keeps_iff (hsg : sg.Pairwise DisjointBlocks) :
    ((u.verifySignature c src buf len sg).2.2 = false →
        SameCounters u (u.verifySignature c src buf len sg).1) ↔
      Stale u src (ivAt buf len) ∨
        (SignatureRight c u buf len sg ∧ ¬FirstZero u src (ivAt buf len)) := by
  rw [verifySignature_unit hsg, verifyNonce_sameCounters_iff, ← Bool.not_eq_true,
    verifySignature_accepts_iff hsg]
  have hrefused : ¬(u.verifyNonce src buf len).2 = true ↔
      Stale u src (ivAt buf len) ∨ FirstZero u src (ivAt buf len) := by
    rw [Bool.not_eq_true]
    exact verifyNonce_refused_iff
  change (_ → Stale u src (ivAt buf len)) ↔ _
  constructor
  · intro h
    by_cases hstale : Stale u src (ivAt buf len)
    · exact .inl hstale
    · -- A packet that is not stale is accepted, or else the counters have moved.
      have haccept := not_not.mp fun hnot => hstale (h hnot)
      exact .inr ⟨haccept.1, fun hzero => hrefused.mpr (.inr hzero) haccept.2⟩
  · rintro (hstale | ⟨hright, hzero⟩) hnot
    · exact hstale
    · by_contra hstale
      exact hnot ⟨hright, not_not.mp fun hn => (hrefused.mp hn).elim hstale hzero⟩

/-- `decryptDupDetect` keeps the counters when it refuses a message, unless the message is
authentic and has the number 0 of an unknown source. -/
theorem decryptDupDetect_keeps_iff {data : Nat} {u' : AesCcmCryptoUnit} {buf' : Buffer}
    {ok : Bool} (h : u.decryptDupDetect c src buf data len sg = .ok (u', buf', ok)) :
    (ok = false → SameCounters u u') ↔
      ¬(EncryptionRight c u buf data len sg ∧
        FirstZero u src (ivAt buf (data + len + 16))) := by
  obtain ⟨hright, hwrong⟩ := decryptDupDetect_spec h
  by_cases henc : EncryptionRight c u buf data len sg
  · obtain ⟨rfl, rfl, -⟩ := hright henc
    rw [verifyNonce_sameCounters_iff, verifyNonce_refused_iff]
    constructor
    · rintro hkeep ⟨-, hzero⟩
      exact hzero.not_stale (hkeep (.inr hzero))
    · rintro hnot (hstale | hzero)
      · exact hstale
      · exact absurd ⟨henc, hzero⟩ hnot
  · obtain ⟨rfl, -, -⟩ := hwrong henc
    exact ⟨fun _ hboth => henc hboth.1, fun _ _ => ⟨rfl, rfl⟩⟩

/-- When a refused packet leaves the counters of the unit alone, for both ways to verify a
packet. -/
theorem refused_keeps_iff (hsg : sg.Pairwise DisjointBlocks) :
    (((u.verifySignature c src buf len sg).2.2 = false →
        SameCounters u (u.verifySignature c src buf len sg).1) ↔
      Stale u src (ivAt buf len) ∨
        (SignatureRight c u buf len sg ∧ ¬FirstZero u src (ivAt buf len))) ∧
    ∀ data u' buf' ok, u.decryptDupDetect c src buf data len sg = .ok (u', buf', ok) →
      ((ok = false → SameCounters u u') ↔
        ¬(EncryptionRight c u buf data len sg ∧
          FirstZero u src (ivAt buf (data + len + 16)))) :=
  ⟨verifySignature_keeps_iff hsg, fun _ _ _ _ h => decryptDupDetect_keeps_iff h⟩

/-- A unit that has just been started. -/
def freshUnit : AesCcmCryptoUnit where
  key := List.replicate 16 7
  nonce := List.replicate 16 9

/-- A beacon of the source 1 without neighbours, with an `iv` of 5 behind it. The byte `b`
begins its signature. -/
def forgedBeacon (b : UInt8) : Buffer := fun i =>
  if i = 6 then 1 else if i = 20 then 5 else if i = 29 then b else 0

/-- A unit that knows a later packet of the source 1 refuses the beacon and keeps its
counters. -/
theorem refused_keeps_iff_replay :
    SameCounters { freshUnit with ivMap := (∅ : ExtTreeMap NodeId UInt64 compare).insert 1 9 }
      (verifySignature nullCcm
        { freshUnit with ivMap := (∅ : ExtTreeMap NodeId UInt64 compare).insert 1 9 } 1
        (forgedBeacon 0) 13 []).1 :=
  ((refused_keeps_iff .nil).1.mpr (.inl ⟨9, by simp, by decide +kernel⟩)) (by decide +kernel)

/-- Whatever the cipher is, one of two beacons that differ in their signature only is
forged, and the unit that refuses it has moved its counters. -/
theorem forged_moves_counters : ¬∃ c : Ccm, ∀ (u : AesCcmCryptoUnit) (src : NodeId)
    (buf : Buffer) (len : Nat) (sg : List MemoryBlock), sg.Pairwise DisjointBlocks →
    (u.verifySignature c src buf len sg).2.2 = false →
    SameCounters u (u.verifySignature c src buf len sg).1 := by
  rintro ⟨c, hclaim⟩
  have hright : ∀ b, SignatureRight c freshUnit (forgedBeacon b) 13 [] := by
    intro b
    have hkeep := (verifySignature_keeps_iff .nil).mp
      (hclaim freshUnit 1 (forgedBeacon b) 13 [] .nil)
    rcases hkeep with ⟨v, hv, -⟩ | ⟨hsig, -⟩
    · cases hv
    · exact hsig
  -- The signature is no part of what is signed, so both would have to be the same.
  have h0 := (hright 0).2
  have h1 := (hright 1).2
  have hsame : (forgedBeacon 0).read 0 29 = (forgedBeacon 1).read 0 29 := by decide +kernel
  have hnonce : (forgedBeacon 0).read 13 16 = (forgedBeacon 1).read 13 16 := by decide +kernel
  simp only [saveNonsignArea] at h0 h1
  rw [hsame, hnonce] at h0
  have hmac : (forgedBeacon 0).read 29 16 = (forgedBeacon 1).read 29 16 := h0.trans h1.symm
  exact absurd hmac (by decide +kernel)

end Refused

/-! ### Runs of a unit -/

/-- The `iv` that `storeNonce` writes into a nonce block. -/
def storedIv (u : AesCcmCryptoUnit) (buf : Buffer) (noncep : Nat) : UInt64 :=
  ivAt (u.storeNonce buf noncep).2 noncep

/-- A run of a unit from the state `u`. Packets are only sent in states that satisfy `send`.
`sent` holds the numbers written into the packets that were sent, and `accepted` the sources
and numbers of the packets that were accepted, the oldest first. -/
inductive CryptoRun (c : Ccm) (send : AesCcmCryptoUnit → Prop) (u : AesCcmCryptoUnit) :
    List UInt64 → List (NodeId × UInt64) → AesCcmCryptoUnit → Prop
  | start : CryptoRun c send u [] [] u
  | encrypt {sent : List UInt64} {accepted : List (NodeId × UInt64)}
      {v v' : AesCcmCryptoUnit} {buf buf' : Buffer} {data len : Nat} {sg : List MemoryBlock}
      (run : CryptoRun c send u sent accepted v) (ok : send v)
      (call : v.encrypt c buf data len sg = .ok (v', buf')) :
      CryptoRun c send u (sent ++ [storedIv v buf (data + len + 16)]) accepted v'
  | sign {sent : List UInt64} {accepted : List (NodeId × UInt64)} {v : AesCcmCryptoUnit}
      (buf : Buffer) (len : Nat) (sg : List MemoryBlock)
      (run : CryptoRun c send u sent accepted v) (ok : send v) :
      CryptoRun c send u (sent ++ [storedIv v buf len]) accepted (v.sign c buf len sg).1
  | verifySignature {sent : List UInt64} {accepted : List (NodeId × UInt64)}
      {v : AesCcmCryptoUnit} (src : NodeId) (buf : Buffer) (len : Nat) (sg : List MemoryBlock)
      (disjoint : sg.Pairwise DisjointBlocks)
      (run : CryptoRun c send u sent accepted v) :
      CryptoRun c send u sent
        (if (v.verifySignature c src buf len sg).2.2 then accepted ++ [(src, ivAt buf len)]
          else accepted)
        (v.verifySignature c src buf len sg).1
  | decryptDupDetect {sent : List UInt64} {accepted : List (NodeId × UInt64)}
      {v v' : AesCcmCryptoUnit} {src : NodeId} {buf buf' : Buffer} {data len : Nat}
      {sg : List MemoryBlock} {ok : Bool} (run : CryptoRun c send u sent accepted v)
      (call : v.decryptDupDetect c src buf data len sg = .ok (v', buf', ok)) :
      CryptoRun c send u sent
        (if ok then accepted ++ [(src, ivAt buf (data + len + 16))] else accepted) v'

section Run

variable {c : Ccm} {send : AesCcmCryptoUnit → Prop} {u v v' : AesCcmCryptoUnit}
  {sent : List UInt64} {accepted : List (NodeId × UInt64)} {src : NodeId} {buf : Buffer}
  {noncep : Nat}

/-- `storeNonce` writes the new value of the counter. -/
theorem storedIv_eq (u : AesCcmCryptoUnit) (buf : Buffer) (noncep : Nat) :
    storedIv u buf noncep = u.lastIv + 1 := by
  have hread := Buffer.read_write_self (buf.write (noncep + 8) (u.nonce.take 8)) noncep
    (toBigEndian 8 (u.lastIv + 1).toNat)
  rw [length_toBigEndian] at hread
  have hlt : (u.lastIv + 1).toNat < 256 ^ 8 := (u.lastIv + 1).toNat_lt
  show UInt64.ofNat (ofBigEndian (((buf.write (noncep + 8) (u.nonce.take 8)).write noncep
    (toBigEndian 8 (u.lastIv + 1).toNat)).read noncep 8)) = u.lastIv + 1
  rw [hread, ofBigEndian_toBigEndian_of_lt hlt, UInt64.ofNat_toNat]

/-- An encryption only counts. -/
theorem encrypt_unit {buf' : Buffer} {data len : Nat} {sg : List MemoryBlock}
    (h : v.encrypt c buf data len sg = .ok (v', buf')) :
    v' = { v with lastIv := v.lastIv + 1 } := by
  unfold encrypt at h
  simp only at h
  obtain ⟨⟨out, ok⟩, -, h⟩ := bind_eq_ok.mp h
  cases h
  rfl

/-- A packet that is accepted raises the entry of its source to its number, which is above
the entry that was there. -/
theorem verifyNonce_accepted (h : (u.verifyNonce src buf noncep).2 = true) :
    (u.verifyNonce src buf noncep).1.ivMap[src]? = some (ivAt buf noncep) ∧
      ∀ v, u.ivMap[src]? = some v → v < ivAt buf noncep := by
  cases hv : u.ivMap[src]? with
  | none =>
    rw [verifyNonce_unknown hv] at h ⊢
    split at h
    · cases h
    · rename_i h0
      rw [if_neg h0]
      exact ⟨by simp, fun v hv => by cases hv⟩
  | some w =>
    rw [verifyNonce_known hv] at h ⊢
    split at h
    · cases h
    · rename_i hlt
      rw [if_neg hlt]
      refine ⟨by simp, fun v hv => ?_⟩
      cases hv
      exact UInt64.not_le.mp hlt

/-- No entry ever falls. -/
theorem verifyNonce_ivMap_mono {s : NodeId} {w : UInt64} (h : u.ivMap[s]? = some w) :
    ∃ w', (u.verifyNonce src buf noncep).1.ivMap[s]? = some w' ∧ w ≤ w' := by
  by_cases hs : src = s
  · subst hs
    rw [verifyNonce_known h]
    split
    · exact ⟨w, h, UInt64.le_refl w⟩
    · rename_i hlt
      exact ⟨ivAt buf noncep, by simp, UInt64.le_of_lt (UInt64.not_le.mp hlt)⟩
  · -- The entry of another source is not touched.
    have hother : (u.verifyNonce src buf noncep).1.ivMap[s]? = u.ivMap[s]? := by
      cases hv : u.ivMap[src]? with
      | none =>
        rw [verifyNonce_unknown hv]
        split <;> simp [ExtTreeMap.getElem?_insert, hs]
      | some v =>
        rw [verifyNonce_known hv]
        split <;> simp [ExtTreeMap.getElem?_insert, hs]
    exact ⟨w, by rw [hother, h], UInt64.le_refl w⟩

/-- The counter of the own packets never falls when a packet is received. -/
theorem verifyNonce_lastIv_mono : u.lastIv ≤ (u.verifyNonce src buf noncep).1.lastIv := by
  unfold verifyNonce
  simp only
  split
  · exact UInt64.le_refl _
  · simp only
    split
    · rename_i hlt
      exact UInt64.le_of_lt hlt
    · exact UInt64.le_refl _

/-- What a call that verifies a packet can do: it accepts the packet if `verifyNonce` does,
or it accepts nothing, and its unit is the one behind `verifyNonce` or the old one. -/
structure Verifies (v v' : AesCcmCryptoUnit) (src : NodeId) (buf : Buffer) (noncep : Nat)
    (ok : Bool) : Prop where
  accepts : ok = true → (v.verifyNonce src buf noncep).2 = true ∧
    v' = (v.verifyNonce src buf noncep).1
  unit : v' = (v.verifyNonce src buf noncep).1 ∨ v' = v

/-- A signature is accepted only if `verifyNonce` accepts its number, and the unit is the one that
`verifyNonce` leaves. -/
theorem verifies_verifySignature {len : Nat} {sg : List MemoryBlock}
    (hsg : sg.Pairwise DisjointBlocks) :
    Verifies v (v.verifySignature c src buf len sg).1 src buf len
      (v.verifySignature c src buf len sg).2.2 where
  accepts h := ⟨((verifySignature_accepts_iff hsg).mp h).2, verifySignature_unit hsg⟩
  unit := .inl (verifySignature_unit hsg)

/-- The same for decryption. Where the authentication value is wrong, the unit stays as it was. -/
theorem verifies_decryptDupDetect {buf' : Buffer} {data len : Nat} {sg : List MemoryBlock}
    {ok : Bool} (h : v.decryptDupDetect c src buf data len sg = .ok (v', buf', ok)) :
    Verifies v v' src buf (data + len + 16) ok := by
  obtain ⟨hright, hwrong⟩ := decryptDupDetect_spec h
  by_cases henc : EncryptionRight c v buf data len sg
  · obtain ⟨hunit, hok, -⟩ := hright henc
    exact ⟨fun h => ⟨hok.symm.trans h, hunit⟩, .inl hunit⟩
  · obtain ⟨hunit, hok, -⟩ := hwrong henc
    refine ⟨fun h => ?_, .inr hunit⟩
    rw [hok] at h
    cases h

/-- The largest number. -/
abbrev maxIv : UInt64 := 0xffffffffffffffff

/-- The numbers that were written increase, and the counter is not below any of them. -/
structure SentOk (sent : List UInt64) (v : AesCcmCryptoUnit) : Prop where
  increasing : sent.Pairwise (· < ·)
  le_lastIv : ∀ iv ∈ sent, iv ≤ v.lastIv

/-- The counter does not wrap unless it is at its maximum. -/
theorem lastIv_lt_succ (hmax : v.lastIv ≠ maxIv) : v.lastIv < v.lastIv + 1 := by
  have hbound := v.lastIv.toNat_lt
  have hne : v.lastIv.toNat ≠ 2 ^ 64 - 1 := fun heq => hmax (UInt64.toNat_inj.mp heq)
  rw [UInt64.lt_iff_toNat_lt, UInt64.toNat_add]
  simp
  omega

/-- A packet that is sent gets the next number. -/
theorem SentOk.emit (h : SentOk sent v) (buf : Buffer) (noncep : Nat) (hmax : v.lastIv ≠ maxIv)
    (hnext : v'.lastIv = v.lastIv + 1) : SentOk (sent ++ [storedIv v buf noncep]) v' := by
  have hlt := lastIv_lt_succ hmax
  rw [storedIv_eq]
  refine ⟨List.pairwise_append.mpr ⟨h.increasing, List.pairwise_singleton _ _, ?_⟩, ?_⟩
  · intro a ha b hb
    rw [List.mem_singleton.mp hb]
    exact UInt64.lt_of_le_of_lt (h.le_lastIv a ha) hlt
  · intro iv hiv
    rw [hnext]
    rcases List.mem_append.mp hiv with hiv | hiv
    · exact UInt64.le_of_lt (UInt64.lt_of_le_of_lt (h.le_lastIv iv hiv) hlt)
    · rw [List.mem_singleton.mp hiv]
      exact UInt64.le_refl _

/-- A packet that is received does not lower the counter. -/
theorem SentOk.receive {ok : Bool} (h : SentOk sent v) (hcall : Verifies v v' src buf noncep ok) :
    SentOk sent v' := by
  refine ⟨h.increasing, fun iv hiv => ?_⟩
  rcases hcall.unit with rfl | rfl
  · exact UInt64.le_trans (h.le_lastIv iv hiv) verifyNonce_lastIv_mono
  · exact h.le_lastIv iv hiv

/-- The numbers that were sent ascend up to the counter, by induction on the run. -/
theorem sentOk_run (h : CryptoRun c (fun v => v.lastIv ≠ maxIv) u sent accepted v) :
    SentOk sent v := by
  induction h with
  | start => exact ⟨.nil, fun iv hiv => by cases hiv⟩
  | encrypt run ok call ih => exact ih.emit _ _ ok (by rw [encrypt_unit call])
  | sign buf len sg run ok ih => exact ih.emit _ _ ok rfl
  | verifySignature src buf len sg disjoint run ih =>
    exact ih.receive (verifies_verifySignature disjoint)
  | decryptDupDetect run call ih => exact ih.receive (verifies_decryptDupDetect call)

/-- The numbers that a unit writes into its packets increase strictly in every run in which
no packet is sent while the counter has its largest value. -/
theorem sentIvs_increasing (h : CryptoRun c (fun v => v.lastIv ≠ maxIv) u sent accepted v) :
    sent.Pairwise (· < ·) :=
  (sentOk_run h).increasing

/-- A beacon of the source 1 with the largest number behind it. -/
def farBeacon : Buffer := fun i =>
  if i = 6 then 1 else if 13 ≤ i ∧ i < 21 then 0xff else 0

/-- A unit that signs a packet, gets a beacon and signs another packet. -/
theorem sentIvs_increasing_beacon :
    ∃ v accepted, CryptoRun nullCcm (fun v => v.lastIv ≠ maxIv) freshUnit [1, 6] accepted v ∧
      ([1, 6] : List UInt64).Pairwise (· < ·) := by
  have h0 : CryptoRun nullCcm (fun v => v.lastIv ≠ maxIv) freshUnit [] [] freshUnit := .start
  have h1 := CryptoRun.sign (fun _ => 0) 13 [] h0 (by decide)
  have h2 := CryptoRun.verifySignature 1 (forgedBeacon 0) 13 [] .nil h1
  have h3 := CryptoRun.sign (fun _ => 0) 13 [] h2 (by decide +kernel)
  have hsent : [] ++ [storedIv freshUnit (fun _ => 0) 13] ++
      [storedIv (verifySignature nullCcm (freshUnit.sign nullCcm (fun _ => 0) 13 []).1 1
        (forgedBeacon 0) 13 []).1 (fun _ => 0) 13] = [1, 6] := by decide +kernel
  rw [hsent] at h3
  exact ⟨_, _, h3, sentIvs_increasing h3⟩

/-- Whatever the cipher is, a beacon with the largest number makes the unit start again at 0,
whether it is forged or not. -/
theorem farBeacon_wraps : ¬∃ c : Ccm, ∀ (u : AesCcmCryptoUnit) (sent : List UInt64)
    (accepted : List (NodeId × UInt64)) (v : AesCcmCryptoUnit),
    CryptoRun c (fun _ => True) u sent accepted v → sent.Pairwise (· < ·) := by
  rintro ⟨c, hclaim⟩
  have h0 : CryptoRun c (fun _ => True) freshUnit [] [] freshUnit := .start
  have h1 := CryptoRun.sign (fun _ => 0) 13 [] h0 trivial
  have h2 := CryptoRun.verifySignature 1 farBeacon 13 [] .nil h1
  have h3 := CryptoRun.sign (fun _ => 0) 13 [] h2 trivial
  have hinc := hclaim _ _ _ _ h3
  -- The counter of the unit does not depend on the cipher.
  have hfirst : storedIv freshUnit (fun _ => 0) 13 = 1 := by decide +kernel
  have hlast : ((freshUnit.sign c (fun _ => 0) 13 []).1.verifySignature c 1 farBeacon 13
      []).1.lastIv = maxIv := by
    rw [verifySignature_unit .nil]
    show (verifyNonce { freshUnit with lastIv := 1 } 1 farBeacon 13).1.lastIv = maxIv
    decide +kernel
  rw [storedIv_eq (verifySignature c _ 1 farBeacon 13 []).1, hlast, hfirst] at hinc
  exact absurd hinc (by decide)

/-- The numbers that were accepted from a source increase, and its entry is not below any of
them. -/
structure AcceptedOk (accepted : List (NodeId × UInt64)) (v : AesCcmCryptoUnit) : Prop where
  increasing : accepted.Pairwise (fun a b => a.1 = b.1 → a.2 < b.2)
  le_entry : ∀ a ∈ accepted, ∃ w, v.ivMap[a.1]? = some w ∧ a.2 ≤ w

/-- No call that verifies a packet lowers an entry. -/
theorem AcceptedOk.keep {ok : Bool} (h : AcceptedOk accepted v)
    (hcall : Verifies v v' src buf noncep ok) : AcceptedOk accepted v' := by
  refine ⟨h.increasing, fun a ha => ?_⟩
  obtain ⟨x, hx, hax⟩ := h.le_entry a ha
  rcases hcall.unit with rfl | rfl
  · obtain ⟨y, hy, hxy⟩ := verifyNonce_ivMap_mono hx
    exact ⟨y, hy, UInt64.le_trans hax hxy⟩
  · exact ⟨x, hx, hax⟩

/-- A packet that is accepted has a number above the entry of its source. -/
theorem AcceptedOk.receive {ok : Bool} (h : AcceptedOk accepted v)
    (hcall : Verifies v v' src buf noncep ok) :
    AcceptedOk (if ok then accepted ++ [(src, ivAt buf noncep)] else accepted) v' := by
  have hkeep := h.keep hcall
  cases ok with
  | false => exact hkeep
  | true =>
    obtain ⟨hfresh, rfl⟩ := hcall.accepts rfl
    obtain ⟨hentry, habove⟩ := verifyNonce_accepted hfresh
    refine ⟨List.pairwise_append.mpr ⟨h.increasing, List.pairwise_singleton _ _, ?_⟩, ?_⟩
    · intro a ha b hb hab
      rw [List.mem_singleton.mp hb] at hab ⊢
      obtain ⟨x, hx, hax⟩ := h.le_entry a ha
      rw [hab] at hx
      exact UInt64.lt_of_le_of_lt hax (habove x hx)
    · intro a ha
      rcases List.mem_append.mp ha with ha | ha
      · exact hkeep.le_entry a ha
      · rw [List.mem_singleton.mp ha]
        exact ⟨_, hentry, UInt64.le_refl _⟩

/-- What was accepted is in order along every run, by induction on the run. -/
theorem acceptedOk_run (h : CryptoRun c send u sent accepted v) : AcceptedOk accepted v := by
  induction h with
  | start => exact ⟨.nil, fun a ha => by cases ha⟩
  | encrypt run ok call ih =>
    rw [encrypt_unit call]
    exact ⟨ih.increasing, ih.le_entry⟩
  | sign buf len sg run ok ih => exact ⟨ih.increasing, ih.le_entry⟩
  | verifySignature src buf len sg disjoint run ih =>
    exact ih.receive (verifies_verifySignature disjoint)
  | decryptDupDetect run call ih => exact ih.receive (verifies_decryptDupDetect call)

/-- The numbers of the packets accepted from one source increase strictly in every run, and
so no packet is accepted twice. -/
theorem acceptedIvs_increasing (h : CryptoRun c send u sent accepted v) :
    (∀ src, ((accepted.filter fun a => a.1 = src).map Prod.snd).Pairwise (· < ·)) ∧
      accepted.Nodup := by
  have hinc := (acceptedOk_run h).increasing
  constructor
  · intro src
    rw [List.pairwise_map, List.pairwise_filter]
    refine hinc.imp fun {a b} hab ha hb => hab ?_
    rw [of_decide_eq_true ha, of_decide_eq_true hb]
  · refine hinc.imp fun {a b} hab heq => ?_
    have := hab (by rw [heq])
    rw [heq] at this
    exact UInt64.lt_irrefl _ this

/-- A unit that gets the beacon of the source 1 twice accepts it once. -/
theorem acceptedIvs_increasing_replay :
    ∃ v, CryptoRun nullCcm (fun _ => True) freshUnit [] [(1, 5)] v ∧
      ([(1, 5)] : List (NodeId × UInt64)).Nodup := by
  have h0 : CryptoRun nullCcm (fun _ => True) freshUnit [] [] freshUnit := .start
  have h1 := CryptoRun.verifySignature 1 (forgedBeacon 0) 13 [] .nil h0
  have h2 := CryptoRun.verifySignature 1 (forgedBeacon 0) 13 [] .nil h1
  have hfirst : (verifySignature nullCcm freshUnit 1 (forgedBeacon 0) 13 []).2.2 = true := by
    decide +kernel
  have hsecond : (verifySignature nullCcm (verifySignature nullCcm freshUnit 1
      (forgedBeacon 0) 13 []).1 1 (forgedBeacon 0) 13 []).2.2 = false := by decide +kernel
  have hiv : ivAt (forgedBeacon 0) 13 = 5 := by decide +kernel
  rw [hfirst, hsecond, hiv] at h2
  exact ⟨_, h2, (acceptedIvs_increasing h2).2⟩

end Run

end Awds.Proofs
