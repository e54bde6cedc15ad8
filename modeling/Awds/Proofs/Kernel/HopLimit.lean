import Awds.Proofs.Kernel.FastPath
import Awds.Proofs.Routing.PathTrace

/-!
# `Awds.Proofs.Kernel.HopLimit`: the TTL of unicast packets

`recv_unicast` and `__awds_do_retransmit` decrease the TTL before they compare it with 0. A
packet that comes with a TTL of 0 is therefore sent on with 255. `recv_flood` and
`sendUnicastVia` refuse such a packet. The daemon has a second way to raise a TTL: `appendNode`
writes over it if the trace pointer is in front of it (`PathTrace.lean`).

`TtlDrops` is what a station is meant to do, and `KeepsLimit` says which packets the daemon does
it to. The TTL is then a ranking of the packet that decreases with each station, whatever the
routing tables are, so `Forwarded.le` bounds the length of its way.
-/

set_option autoImplicit false

namespace Awds.Proofs

open Awds.Lib Awds.Kernel Awds.AwdsRouting

/-- The TTL is sent on smaller by one, and not as 0. -/
def TtlDrops (p q : BasePacket) : Prop :=
  UnicastPacket.getTTL q + 1 = UnicastPacket.getTTL p ∧ 1 ≤ UnicastPacket.getTTL q

/-- The byte of its address that the station `host` writes over the TTL if it appends itself. -/
def ttlSlot (host : Host) (p : BasePacket) : Option UInt8 :=
  if TraceUcPacket.getTracePointer p ≤ UnicastPacket.offsetTTL then
    host.myNodeId.toArray[UnicastPacket.offsetTTL - TraceUcPacket.getTracePointer p]?
  else none

/-- The TTL is not 0, and what the append writes over it, if anything, is what it has to be. -/
def KeepsLimit (host : Host) (p : BasePacket) : Prop :=
  UnicastPacket.getTTL p ≠ 0 ∧
    (Appends p → ∀ b ∈ ttlSlot host p, b.toNat + 1 = UnicastPacket.getTTL p)

section Hop

variable {host : Host} {clock : Clock} {r r' : AwdsRouting} {p q : BasePacket}

/-- The TTL is a byte, so a decrement of 0 gives 255. -/
theorem decrTTL_ttl (p : BasePacket) : UnicastPacket.getTTL (UnicastPacket.decrTTL p) =
    (p.buffer UnicastPacket.offsetTTL - 1).toNat := by
  unfold UnicastPacket.getTTL UnicastPacket.decrTTL
  rw [BasePacket.write_buffer, Buffer.write_singleton]

/-- The decrement is one of numbers, but for a TTL of 0. -/
theorem decrTTL_drops_iff {b : UInt8} : (b - 1).toNat + 1 = b.toNat ↔ b.toNat ≠ 0 := by
  constructor
  · intro h h0
    omega
  · intro h
    exact toNat_pred_add_one fun h0 => h (by rw [h0]; rfl)

/-- A slot that lies elsewhere leaves the TTL to the decrement. -/
theorem passed_ttl_none (htype : p.getType = .unicast) (h : Appends p → ttlSlot host p = none) :
    UnicastPacket.getTTL (passed host p) = (p.buffer UnicastPacket.offsetTTL - 1).toNat := by
  by_cases happ : Appends p
  · have hout : UnicastPacket.offsetTTL < TraceUcPacket.getTracePointer p ∨
        TraceUcPacket.getTracePointer p + 6 ≤ UnicastPacket.offsetTTL := by
      have hnone := h happ
      unfold ttlSlot at hnone
      split at hnone
      · rw [List.getElem?_eq_none_iff, NodeId.length_toArray] at hnone
        omega
      · omega
    rw [← decrTTL_ttl, passed_traced htype happ.1]
    unfold UnicastPacket.getTTL
    rw [appendNode_buffer _ _ (by rwa [getTracePointer_decrTTL]) (by decide)]
  · rw [passed_of_not_appends htype happ, decrTTL_ttl]

/-- A slot over the TTL. -/
theorem passed_ttl_some (htype : p.getType = .unicast) (happ : Appends p) {b : UInt8}
    (h : ttlSlot host p = some b) : UnicastPacket.getTTL (passed host p) = b.toNat := by
  unfold ttlSlot at h
  split at h
  · rename_i hle
    obtain ⟨hlt, hb⟩ := List.getElem?_eq_some_iff.mp h
    have hspace := (hasSpace_decrTTL p).mpr happ.2
    rw [passed_traced htype happ.1, appendNode_space _ hspace, getTracePointer_decrTTL]
    unfold UnicastPacket.getTTL
    rw [setTracePointer_buffer _ _ (by decide), BasePacket.write_buffer]
    have hat := Buffer.write_at (UnicastPacket.decrTTL p).buffer host.myNodeId.toArray
      (TraceUcPacket.getTracePointer p) _ hlt
    rw [Nat.add_sub_cancel' hle, hb] at hat
    rw [hat]
  · cases h

/-- The daemon decreases the TTL of a packet that it sends on exactly under `KeepsLimit`. -/
theorem recvUnicast_ttl_iff (htype : p.getType = .unicast)
    (h : r.recvUnicast host clock p = .ok (r', .send q)) : TtlDrops p q ↔ KeepsLimit host p := by
  obtain ⟨hsurvives, hop, rfl⟩ := recvUnicast_send h
  rw [← htype, BasePacket.setType_getType, decrTTL_ttl] at hsurvives
  -- a TTL of 1 is not sent on, so the second half of `TtlDrops` follows from the first
  have hdrops : TtlDrops p ((UnicastPacket.setNextHop (passed host p) hop).setDest hop) ↔
      UnicastPacket.getTTL (passed host p) + 1 = UnicastPacket.getTTL p := by
    have hbyte : UnicastPacket.getTTL
        ((UnicastPacket.setNextHop (passed host p) hop).setDest hop) =
          UnicastPacket.getTTL (passed host p) :=
      congrArg UInt8.toNat (setNextHop_buffer (passed host p) hop (.inr (Nat.le_refl 21)))
    have hone : UnicastPacket.getTTL p ≠ 1 := by
      intro h1
      have hbyte1 : p.buffer UnicastPacket.offsetTTL = 1 := UInt8.toNat_inj.mp h1
      rw [hbyte1] at hsurvives
      exact hsurvives rfl
    unfold TtlDrops
    rw [hbyte]
    omega
  rw [hdrops]
  unfold KeepsLimit
  by_cases happ : Appends p
  · cases hslot : ttlSlot host p with
    | none =>
      rw [passed_ttl_none htype fun _ => hslot]
      refine decrTTL_drops_iff.trans ?_
      exact ⟨fun h0 => ⟨h0, fun _ b hb => by cases hb⟩, fun h0 => h0.1⟩
    | some b =>
      rw [passed_ttl_some htype happ hslot]
      constructor
      · intro hb
        refine ⟨by omega, fun _ c hc => ?_⟩
        cases hc
        exact hb
      · intro hkeeps
        exact hkeeps.2 happ b rfl
  · rw [passed_ttl_none htype fun hc => absurd hc happ]
    refine decrTTL_drops_iff.trans ?_
    exact ⟨fun h0 => ⟨h0, fun hc => absurd hc happ⟩, fun h0 => h0.1⟩

/-- The module decreases the TTL of a packet that it sends on exactly if it is not 0. -/
theorem doRetransmit_ttl_iff {skb skb' : SkBuff} {e : AwdsRoutingEntry}
    (hhop : e.nexthop.length = ethAlen) (hp : skb.data = p.buffer) (hq : skb'.data = q.buffer)
    (h : skb.awdsDoRetransmitLocked e = some skb') :
    TtlDrops p q ↔ UnicastPacket.getTTL p ≠ 0 := by
  unfold SkBuff.awdsDoRetransmitLocked at h
  dsimp only at h
  split at h
  · cases h
  · rename_i hsurvives
    cases h
    have hbyte : q.buffer UnicastPacket.offsetTTL = p.buffer UnicastPacket.offsetTTL - 1 := by
      rw [← hq, ← hp]
      have hbehind : awdsNexthopOffset + e.nexthop.length ≤ UnicastPacket.offsetTTL := by
        rw [hhop]
        exact Nat.le_refl 21
      show (Buffer.write _ awdsNexthopOffset e.nexthop) UnicastPacket.offsetTTL = _
      rw [Buffer.write_of_ge _ _ hbehind]
      exact Buffer.write_singleton _ _ _
    rw [hp] at hsurvives
    have hpos : (p.buffer UnicastPacket.offsetTTL - 1).toNat ≠ 0 := fun h0 =>
      hsurvives (UInt8.toNat_inj.mp h0)
    unfold TtlDrops UnicastPacket.getTTL
    rw [hbyte, decrTTL_drops_iff]
    omega

end Hop

/-! ### The way of a packet -/

/-- A station gets the packet `p` and sends `q`. The daemon or the module does so. -/
inductive SendsOn : BasePacket → BasePacket → Prop
  | daemon (host : Host) (clock : Clock) (r r' : AwdsRouting) (p q : BasePacket)
      (type : p.getType = .unicast) (keeps : KeepsLimit host p)
      (run : r.recvUnicast host clock p = .ok (r', .send q)) : SendsOn p q
  | kernel (skb skb' : SkBuff) (e : AwdsRoutingEntry) (p q : BasePacket)
      (hop : e.nexthop.length = ethAlen) (got : Carries skb p) (sent : Carries skb' q)
      (keeps : UnicastPacket.getTTL p ≠ 0)
      (run : skb.awdsDoRetransmitLocked e = some skb') : SendsOn p q

/-- The packet `p` was transmitted and then sent on `n` times, last as `q`. The stations on its
way and their tables are arbitrary. -/
inductive Forwarded (p : BasePacket) : Nat → BasePacket → Prop
  | first : Forwarded p 0 p
  | next (n : Nat) (q a q' : BasePacket) (way : Forwarded p n q) (arrives : q.Arrives a)
      (sent : SendsOn a q') : Forwarded p (n + 1) q'

section Way

variable {p q a : BasePacket} {n : Nat}

/-- Whoever sends a packet on, the daemon or the module, takes one off its TTL. -/
theorem SendsOn.drops (h : SendsOn p q) : TtlDrops p q := by
  cases h with
  | daemon host clock r r' p q type keeps run => exact (recvUnicast_ttl_iff type run).mpr keeps
  | kernel skb skb' e p q hop got sent keeps run =>
    exact (doRetransmit_ttl_iff hop got.data sent.data run).mpr keeps

/-- A TTL that arrives is the one that was sent, or 0 if the packet was too short for one. -/
theorem arrives_ttl (h : q.Arrives a) (hpos : UnicastPacket.getTTL a ≠ 0) :
    UnicastPacket.getTTL a = UnicastPacket.getTTL q := by
  unfold UnicastPacket.getTTL at hpos ⊢
  rcases Nat.lt_or_ge UnicastPacket.offsetTTL q.size with hin | hout
  · rw [h.bytes _ hin]
  · rcases h.padding _ hout with hzero | hsame
    · rw [hzero] at hpos
      exact absurd rfl hpos
    · rw [hsame]

/-- The stations on the way have used up the TTL that is gone. -/
theorem Forwarded.ttl (h : Forwarded p n q) :
    UnicastPacket.getTTL q + n = UnicastPacket.getTTL p ∧
      (n = 0 ∨ 1 ≤ UnicastPacket.getTTL q) := by
  induction h with
  | first => exact ⟨rfl, .inl rfl⟩
  | next n q a q' way arrives sent ih =>
    obtain ⟨hdrop, hpos⟩ := sent.drops
    have hsame : UnicastPacket.getTTL a = UnicastPacket.getTTL q := arrives_ttl arrives (by omega)
    exact ⟨by omega, .inr hpos⟩

/-- The TTL that arrives is a byte, so there are at most 254 hops. -/
theorem Forwarded.le (h : Forwarded p n q) : n ≤ 254 := by
  obtain ⟨hsum, hlast⟩ := h.ttl
  have hbyte : UnicastPacket.getTTL p < 256 := (p.buffer UnicastPacket.offsetTTL).toNat_lt
  omega

end Way

/-- A unicast packet that the daemon or the module sends on leaves with a TTL that is smaller by
one and not 0, if and only if it has come with a TTL other than 0 and the daemon does not write
another value over the TTL. If every station on the way of a packet gets it so, it is sent on
254 times at most. -/
theorem ttl_limits_hops (p q : BasePacket) :
    (∀ (host : Host) (clock : Clock) (r r' : AwdsRouting),
      p.getType = .unicast → r.recvUnicast host clock p = .ok (r', .send q) →
        (TtlDrops p q ↔ KeepsLimit host p)) ∧
    (∀ (skb skb' : SkBuff) (e : AwdsRoutingEntry),
      e.nexthop.length = ethAlen → Carries skb p → Carries skb' q →
        skb.awdsDoRetransmitLocked e = some skb' →
          (TtlDrops p q ↔ UnicastPacket.getTTL p ≠ 0)) ∧
    ∀ n : Nat, Forwarded p n q → n ≤ 254 :=
  ⟨fun _ _ _ _ htype h => recvUnicast_ttl_iff htype h,
    fun _ _ _ hhop hp hq h => doRetransmit_ttl_iff hhop hp.data hq.data h,
    fun _ h => h.le⟩

/-- The packet of `PathTrace.lean` without a trace, with another TTL. -/
def agedPacket (ttl : Nat) : BasePacket := UnicastPacket.setTTL (transitPacket 1) ttl

/-- The packet that the daemon of the station 1 sends. -/
def agedSent (ttl : Nat) : BasePacket :=
  (UnicastPacket.setNextHop (passed (pairHosts false) (agedPacket ttl)) 2).setDest 2

/-- The packet that its module sends. -/
def agedRelayed (ttl : Nat) : BasePacket :=
  { agedPacket ttl with buffer := (relayedTo (skbOf (agedPacket ttl)) 2).data }

/-- The daemon sends a packet that is not too old to its next hop. -/
theorem agedPacket_sent (ttl : Nat) (h : ComesTo (pairHosts false) (agedPacket ttl))
    (hdest : UnicastPacket.getUcDest (passed (pairHosts false) (agedPacket ttl)) = 2) :
    wayRouting.recvUnicast (pairHosts false) ⟨0, 0⟩ (agedPacket ttl) =
      .ok (wayRouting, .send (agedSent ttl)) := by
  have hroute :
      wayRouting.topology.adjList[(2 : NodeId)]? = some { distance := 1, nextHop := 2 } := by
    decide +kernel
  rw [recvUnicast_sends rfl h hdest (by decide) hroute (by decide)]
  rfl

/-- The module does the same. -/
theorem agedPacket_relayed (ttl : Nat)
    (h : (skbOf (agedPacket ttl)).data awdsTtlOffset - 1 ≠ 0) :
    (skbOf (agedPacket ttl)).awdsDoRetransmitLocked ⟨[], NodeId.toArray 2⟩ =
      some (relayedTo (skbOf (agedPacket ttl)) 2) := by
  unfold SkBuff.awdsDoRetransmitLocked
  dsimp only
  rw [if_neg h]
  rfl

/-- A TTL of 32, and the first station that sends the packet on. -/
theorem ttl_limits_hops_way : TtlDrops (agedPacket 32) (agedSent 32) ∧
    TtlDrops (agedPacket 32) (agedRelayed 32) ∧ Forwarded (agedPacket 32) 1 (agedSent 32) ∧
      1 ≤ 254 := by
  have hsent := agedPacket_sent 32 (by decide +kernel) (by decide +kernel)
  have hrelayed := agedPacket_relayed 32 (by decide +kernel)
  have htype : (agedPacket 32).getType = .unicast := by decide +kernel
  have hkeeps : KeepsLimit (pairHosts false) (agedPacket 32) :=
    ⟨by decide +kernel, fun happ => absurd happ.1 (by decide +kernel)⟩
  have hway : Forwarded (agedPacket 32) 1 (agedSent 32) :=
    .next 0 _ _ _ .first ⟨Nat.le_refl _, by decide, fun _ _ => rfl, fun _ _ => .inr rfl⟩
      (.daemon _ _ _ _ _ _ htype hkeeps hsent)
  exact ⟨((ttl_limits_hops _ _).1 _ _ _ _ htype hsent).mpr hkeeps,
    ((ttl_limits_hops _ _).2.1 _ _ _ rfl ⟨rfl, rfl, rfl⟩ ⟨rfl, rfl, rfl⟩ hrelayed).mpr
      (by decide +kernel), hway, (ttl_limits_hops _ _).2.2 _ hway⟩

/-- A TTL of 0, which leaves the daemon and the module as 255. -/
theorem ttl_wraps :
    (wayRouting.recvUnicast (pairHosts false) ⟨0, 0⟩ (agedPacket 0) =
        .ok (wayRouting, .send (agedSent 0)) ∧
      UnicastPacket.getTTL (agedSent 0) = 255 ∧ ¬TtlDrops (agedPacket 0) (agedSent 0)) ∧
    ((skbOf (agedPacket 0)).awdsDoRetransmitLocked ⟨[], NodeId.toArray 2⟩ =
        some (relayedTo (skbOf (agedPacket 0)) 2) ∧
      UnicastPacket.getTTL (agedRelayed 0) = 255 ∧
        ¬TtlDrops (agedPacket 0) (agedRelayed 0)) := by
  refine ⟨⟨agedPacket_sent 0 (by decide +kernel) (by decide +kernel), by decide +kernel, ?_⟩,
    agedPacket_relayed 0 (by decide +kernel), by decide +kernel, ?_⟩
  · rintro ⟨hdrop, -⟩
    exact absurd hdrop (by decide +kernel)
  · rintro ⟨hdrop, -⟩
    exact absurd hdrop (by decide +kernel)

end Awds.Proofs
