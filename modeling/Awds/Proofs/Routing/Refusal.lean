import Awds.Proofs.Routing.Flood

/-!
# `Awds.Proofs.Routing.Refusal`: flood packets that are refused

`recv_flood` refuses a packet with a TTL of 0 and a topo packet whose signature is wrong. It
has entered the packet into the history by then, and for a topo packet the crypto unit has
moved its counters too.

`Unaffected` compares two runs. The packets that come later are given to the station that
has refused the packet and to one that never got it, and both have to send the same packets
on, and to have the same topology and the same frames on their device.

`refused_unaffected_iff`: a refused packet is without effect only if its source and number
were in the history already. Otherwise the history drops the packet that comes later with
the same source and number. `probe` is such a packet for any station.
-/

set_option autoImplicit false

namespace Awds.Proofs

open Awds.Lib Awds.AwdsRouting

section Refusal

variable {host : Host} {clock : Clock} {r r' : AwdsRouting} {p : BasePacket}

/-- `recv_flood` refuses the packet for what it is: its TTL is 0, or it is a topo packet
whose signature is wrong. -/
def Refused (host : Host) (r : AwdsRouting) (p : BasePacket) : Prop :=
  Flood.getTTL p = 0 ∨
    (Flood.getFloodType p = Flood.floodTypeTopo ∧ cryptoLen ≤ p.size ∧
      ∃ cu, r.cryptoUnit = some cu ∧
        (cu.verifySignature host.ccm (SrcPacket.getSrc p) p.buffer (p.size - cryptoLen)
          noSign).2.2 = false)

/-- What can be seen of a call: the packet that is sent on, the topology and the tap
interface. -/
abbrev Seen := Option BasePacket × RTopology × TapInterface

/-- What can be seen of the station `r` while it gets the packets of a list. A call that does
not return is the last one. -/
def outcomes (host : Host) : AwdsRouting → List (Clock × BasePacket) → List (Result Seen)
  | _, [] => []
  | r, (clock, p) :: ps => match r.recvFlood host clock p with
    | .error e => [.error e]
    | .ok (r', sent) => .ok (sent, r'.topology, r'.tap) :: outcomes host r' ps

/-- Every packet of the list is a flood packet that the station does not refuse when it is
its turn. -/
def Genuine (host : Host) : AwdsRouting → List (Clock × BasePacket) → Prop
  | _, [] => True
  | r, (clock, p) :: ps => p.getType = .flood ∧ ¬Refused host r p ∧
      ∀ r' sent, r.recvFlood host clock p = .ok (r', sent) → Genuine host r' ps

/-- Genuine packets are treated by `r'` as `r` treats them. -/
def Unaffected (host : Host) (r r' : AwdsRouting) : Prop :=
  ∀ ps, Genuine host r ps → outcomes host r' ps = outcomes host r ps

/-! ### What a refused packet leaves behind -/

/-- A packet in the history is dropped. -/
theorem recvFlood_of_contains (htype : p.getType = .flood)
    (hin : r.floodHistory.contains (SrcPacket.getSrc p) (SrcPacket.getSeq p) = true) :
    r.recvFlood host clock p = .ok (r, none) := by
  unfold recvFlood admitFlood
  simp only [setType_flood htype, hin, if_true, Bool.not_false]

/-- A new packet that is refused is not sent on. -/
theorem recvFlood_of_refused (htype : p.getType = .flood) (hnew : r.floodHistory.contains
    (SrcPacket.getSrc p) (SrcPacket.getSeq p) = false) (hrefused : Refused host r p) :
    ∃ r', ∀ clock, r.recvFlood host clock p = .ok (r', none) := by
  by_cases httl : Flood.getTTL p = 0
  · refine ⟨(r.admitFlood p).1, fun clock => ?_⟩
    unfold recvFlood admitFlood
    simp only [setType_flood htype, hnew, httl]
    rfl
  · obtain ⟨htopo, hlen, cu, hcu, hsig⟩ := hrefused.resolve_left httl
    let cu' := (cu.verifySignature host.ccm (SrcPacket.getSrc p) p.buffer
      (p.size - cryptoLen) noSign).1
    refine ⟨{ (r.admitFlood p).1 with cryptoUnit := some cu' }, fun clock => ?_⟩
    unfold recvFlood admitFlood
    simp only [setType_flood htype, hnew, Bool.false_eq_true, if_false, decide_eq_true httl,
      Bool.not_true]
    unfold handleFlood handleTopo checkSignature BasePacket.sizeMinus
    simp only [htopo, if_true, hcu, if_neg (Nat.not_lt.mpr hlen), except_bind_ok, hsig,
      Bool.not_false]
    rfl

/-- The entry of a packet that has been received is in the history. -/
theorem contains_of_recvFlood {sent : Option BasePacket}
    (h : r.recvFlood host clock p = .ok (r', sent)) :
    r'.floodHistory.contains (SrcPacket.getSrc p) (SrcPacket.getSeq p) = true := by
  rw [recvFlood_floodHistory h, admitFlood_floodHistory]
  split
  · assumption
  · rw [contains_iff _ ⟨SrcPacket.getSrc p, SrcPacket.getSeq p⟩]
    exact (Ring.holdsWithin_insert_self _ _ 0).mem

/-! ### The probe -/

/-- A packet with the source and the number of `p` and a TTL of 2, which the station `hop`
has sent. Its flood type is 1, and it is no command to reset. -/
def probe (p : BasePacket) (hop : NodeId) : BasePacket :=
  { buffer := (p.buffer.write 9 hop.toArray).write 15 [2, 1, 5], size := 49, dest := p.dest }

/-- The probe differs from the packet in its last hop and the bytes behind it only. -/
theorem probe_of_lt (hop : NodeId) {i : Nat} (h : i < 9) :
    (probe p hop).buffer i = p.buffer i := by
  show ((p.buffer.write 9 hop.toArray).write 15 [2, 1, 5]) i = p.buffer i
  rw [Buffer.write_of_lt _ _ (by omega), Buffer.write_of_lt _ _ h]

/-- The type, the source and the number of the probe are those of `p`. -/
theorem probe_read (p : BasePacket) (hop : NodeId) {off n : Nat} (h : off + n ≤ 9) :
    (probe p hop).buffer.read off n = p.buffer.read off n :=
  Buffer.read_congr fun _ _ hi => probe_of_lt hop (by omega)

/-- The source lies in front of them. -/
theorem probe_src (p : BasePacket) (hop : NodeId) :
    SrcPacket.getSrc (probe p hop) = SrcPacket.getSrc p :=
  congrArg NodeId.fromArray (probe_read p hop (by decide))

/-- The sequence number does, too. -/
theorem probe_seq (p : BasePacket) (hop : NodeId) :
    SrcPacket.getSeq (probe p hop) = SrcPacket.getSeq p :=
  congrArg ofBigEndian (probe_read p hop (by decide))

/-- The type is the first byte. -/
theorem probe_type (p : BasePacket) (hop : NodeId) : (probe p hop).getType = p.getType := by
  rw [BasePacket.getType, BasePacket.getType, probe_of_lt hop (by decide)]

/-- The last hop of the probe. -/
theorem probe_lastHop (p : BasePacket) (hop : NodeId) :
    Flood.getLastHop (probe p hop) = hop := by
  show NodeId.fromArray (((p.buffer.write 9 hop.toArray).write 15 [2, 1, 5]).read 9 6) = hop
  have hself := Buffer.read_write_self p.buffer 9 hop.toArray
  rw [NodeId.length_toArray] at hself
  rw [Buffer.read_write_disjoint _ _ (.inl (by decide)), hself, NodeId.fromArray_toArray]

/-- The bytes of the probe behind the last hop. -/
theorem probe_at (p : BasePacket) (hop : NodeId) (k : Nat) (hk : k < [2, 1, 5].length) :
    (probe p hop).buffer (15 + k) = ([2, 1, 5] : List UInt8)[k] :=
  Buffer.write_at _ _ 15 k hk

/-- A station with at most 40 neighbours does not know every address. -/
theorem exists_stranger (h : r.neighbors.length ≤ maxNeighbors) :
    ∃ hop : NodeId, ∀ nd ∈ r.neighbors, nd.id ≠ hop := by
  by_contra hnone
  push Not at hnone
  -- Otherwise the addresses of the neighbours would be all of them.
  have hall : (Finset.univ : Finset NodeId) ⊆ (r.neighbors.map NodeDescr.id).toFinset := by
    intro hop _
    obtain ⟨nd, hnd, rfl⟩ := hnone hop
    exact List.mem_toFinset.mpr (List.mem_map_of_mem hnd)
  have hcard := (Finset.card_le_card hall).trans (List.toFinset_card_le _)
  rw [Finset.card_univ, Fintype.card_fin, List.length_map] at hcard
  exact absurd (hcard.trans h) (by decide)

/-- The probe is sent on by every station that does not know its source and number, and it is
not refused. -/
theorem probe_sent (htype : p.getType = .flood) (hnew : r.floodHistory.contains
    (SrcPacket.getSrc p) (SrcPacket.getSeq p) = false) {hop : NodeId}
    (hhop : ∀ nd ∈ r.neighbors, nd.id ≠ hop) :
    Genuine host r [(clock, probe p hop)] ∧
      ∃ r' q, r.recvFlood host clock (probe p hop) = .ok (r', some q) := by
  have hflood : (probe p hop).getType = .flood := (probe_type p hop).trans htype
  -- The bytes behind the addresses are those of the probe.
  have httl : Flood.getTTL (probe p hop) = 2 := by
    show ((probe p hop).buffer (15 + 0)).toNat = 2
    rw [probe_at p hop 0 (by decide)]
    rfl
  have hkind : Flood.getFloodType (probe p hop) = 1 := by
    show signedByte ((probe p hop).buffer (15 + 1)) = 1
    rw [probe_at p hop 1 (by decide)]
    rfl
  have hcmd : (probe p hop).buffer Flood.floodHeaderEnd ≠ 2 := by
    show (probe p hop).buffer (15 + 2) ≠ 2
    rw [probe_at p hop 2 (by decide)]
    decide
  have hkind0 : Flood.getFloodType (probe p hop) ≠ Flood.floodTypeTopo := by
    rw [hkind]
    decide
  constructor
  · -- It has hops left and is no topology, so it is genuine.
    refine ⟨hflood, ?_, fun _ _ _ => trivial⟩
    rintro (h0 | ⟨htopo, -⟩)
    · omega
    · exact hkind0 htopo
  · -- It is new and no neighbour has sent it, so it is relayed.
    refine recvFlood_sends hflood (by rw [probe_src, probe_seq, hnew]) (by omega) ?_ fun h' =>
      handleFlood_returns hkind0 (by decide : 49 ≤ 49) (by decide : 49 + 10 ≤ 4096) hcmd
    rw [probe_lastHop]
    exact hhop

/-- A refused packet is without effect on the packets that come later exactly if its source
and number were in the history. -/
theorem refused_unaffected_iff (htype : p.getType = .flood) (hrefused : Refused host r p)
    (hneigh : r.neighbors.length ≤ maxNeighbors) :
    ∃ r', (∀ clock, r.recvFlood host clock p = .ok (r', none)) ∧
      (Unaffected host r r' ↔
        r.floodHistory.contains (SrcPacket.getSrc p) (SrcPacket.getSeq p) = true) := by
  cases hin : r.floodHistory.contains (SrcPacket.getSrc p) (SrcPacket.getSeq p) with
  | true =>
    refine ⟨r, fun clock => recvFlood_of_contains htype hin, ?_⟩
    exact ⟨fun _ => rfl, fun _ ps _ => rfl⟩
  | false =>
    obtain ⟨r', hrun⟩ := recvFlood_of_refused htype hin hrefused
    refine ⟨r', hrun, ?_⟩
    constructor
    · intro hsame
      obtain ⟨hop, hhop⟩ := exists_stranger hneigh
      have hprobe : Genuine host r [(⟨0, 0⟩, probe p hop)] ∧
          ∃ r1 q, r.recvFlood host ⟨0, 0⟩ (probe p hop) = .ok (r1, some q) :=
        probe_sent htype hin hhop
      obtain ⟨hgenuine, r1, q, hsent⟩ := hprobe
      -- The station that has refused the packet drops the probe.
      have hdropped : r'.recvFlood host ⟨0, 0⟩ (probe p hop) = .ok (r', none) := by
        refine recvFlood_of_contains ((probe_type p hop).trans htype) ?_
        rw [probe_src, probe_seq]
        exact contains_of_recvFlood (hrun ⟨0, 0⟩)
      have hkeep := hsame _ hgenuine
      simp only [outcomes, hsent, hdropped] at hkeep
      simp at hkeep
    · intro h
      cases h

end Refusal

/-- A copy of the command to lock all topologies whose TTL has run out. -/
def spentLock : BasePacket := Flood.setTTL lockPacket 0

/-- The station 2 behind the command to lock all topologies. -/
def lockedRouting : AwdsRouting :=
  { pairRouting true with floodHistory := (pairRouting true).floodHistory.insert 1 0 }

/-- The copy that comes behind the command is without effect. -/
theorem refused_unaffected_iff_copy :
    ∃ r', (∀ clock, lockedRouting.recvFlood (pairHosts true) clock spentLock = .ok (r', none)) ∧
      Unaffected (pairHosts true) lockedRouting r' := by
  have hrefused : Refused (pairHosts true) lockedRouting spentLock := .inl (by decide +kernel)
  obtain ⟨r', hrun, hiff⟩ := refused_unaffected_iff (by decide +kernel) hrefused (by decide)
  exact ⟨r', hrun, hiff.mpr (by decide +kernel)⟩

/-- The copy that comes before the command suppresses it: the command is not sent on. -/
theorem spentLock_suppresses : ¬∀ (host : Host) (clock : Clock) (r r' : AwdsRouting)
    (p : BasePacket), p.getType = .flood → Refused host r p →
    r.neighbors.length ≤ maxNeighbors → r.recvFlood host clock p = .ok (r', none) →
    Unaffected host r r' := by
  intro hclaim
  have hrefused : Refused (pairHosts true) (pairRouting true) spentLock :=
    .inl (by decide +kernel)
  obtain ⟨r', hrun⟩ := recvFlood_of_refused (by decide +kernel) (by decide +kernel) hrefused
  have hsame := hclaim (pairHosts true) ⟨0, 0⟩ (pairRouting true) r' spentLock
    (by decide +kernel) hrefused (by decide) (hrun ⟨0, 0⟩)
  have hgenuine : Genuine (pairHosts true) (pairRouting true) [(⟨0, 0⟩, lockPacket)] := by
    refine ⟨by decide +kernel, ?_, fun _ _ _ => trivial⟩
    rintro (httl | ⟨htopo, -⟩)
    · exact absurd httl (by decide +kernel)
    · exact absurd htopo (by decide +kernel)
  have hout := hsame _ hgenuine
  -- The station that has refused the copy drops the command.
  have hsrc : SrcPacket.getSrc spentLock = SrcPacket.getSrc lockPacket := by decide +kernel
  have hseq : SrcPacket.getSeq spentLock = SrcPacket.getSeq lockPacket := by decide +kernel
  have hin := contains_of_recvFlood (hrun ⟨0, 0⟩)
  rw [hsrc, hseq] at hin
  have hdropped : r'.recvFlood (pairHosts true) ⟨0, 0⟩ lockPacket = .ok (r', none) :=
    recvFlood_of_contains (by decide +kernel) hin
  obtain ⟨⟨r1, sent⟩, hsent, htest⟩ := exists_of_test
    ((pairRouting true).recvFlood (pairHosts true) ⟨0, 0⟩ lockPacket)
    (fun out => out.2.isSome) (by decide +kernel)
  simp only [outcomes, hdropped, hsent, List.cons.injEq, Except.ok.injEq, Prod.mk.injEq] at hout
  rw [← hout.1.1] at htest
  cases htest

end Awds.Proofs
