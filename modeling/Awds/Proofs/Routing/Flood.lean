import Awds.Routing.Operations
import Awds.Proofs.Crypto.Blocks

/-!
# `Awds.Proofs.Routing.Flood`: what `recv_flood` does to a packet

`recvFlood` works in place, so the packet it sends on is the packet as its handler left it.
This file says what the parts of `recvFlood` do:

* `SameFields p q`: the two packets have the same header fields behind the type byte. Every
  handler keeps the fields of a packet that goes on (`handleFlood_keeps`), though one
  changes the bytes behind them.
* `SameTables`: no handler touches the history of floods and the table of neighbours.
* `recvFlood_floodHistory` and `recvFlood_sent_fields` say what `recvFlood` does to the
  history and what it sends on: a packet with the same source and number and a TTL that is
  smaller by one and not 0.
* `recvFlood_sends` is the other direction: a new packet with a TTL above 1 whose handler
  returns and whose last hop is no neighbour is sent on.
-/

set_option autoImplicit false

namespace Awds.Proofs

open Awds.Lib Awds.AwdsRouting

/-! ### Header fields -/

/-- The two packets have the same header fields. The type byte is in front of them and the
header ends at 17. -/
def SameFields (p q : BasePacket) : Prop :=
  ∀ i, 1 ≤ i → i < 17 → q.buffer i = p.buffer i

namespace SameFields

variable {p q s : BasePacket}

/-- A packet has its own header fields. -/
theorem refl (p : BasePacket) : SameFields p p := fun _ _ _ => rfl

/-- Two packets in a row keep the header fields. -/
theorem trans (h : SameFields p q) (h' : SameFields q s) : SameFields p s :=
  fun i h1 h2 => (h' i h1 h2).trans (h i h1 h2)

/-- A block inside the header reads the same. -/
theorem read (h : SameFields p q) {off n : Nat} (h1 : 1 ≤ off) (h2 : off + n ≤ 17) :
    q.buffer.read off n = p.buffer.read off n :=
  Buffer.read_congr fun i hlo hhi => h i (by omega) (by omega)

/-- The source is one of the fields. -/
theorem getSrc (h : SameFields p q) : SrcPacket.getSrc q = SrcPacket.getSrc p := by
  rw [SrcPacket.getSrc, SrcPacket.getSrc, h.read (by decide) (by decide)]

/-- So is the sequence number. -/
theorem getSeq (h : SameFields p q) : SrcPacket.getSeq q = SrcPacket.getSeq p := by
  rw [SrcPacket.getSeq, SrcPacket.getSeq, h.read (by decide) (by decide)]

/-- The last hop is in front of the end of the header. -/
theorem getLastHop (h : SameFields p q) : Flood.getLastHop q = Flood.getLastHop p := by
  rw [Flood.getLastHop, Flood.getLastHop, h.read (by decide) (by decide)]

/-- So is the TTL. -/
theorem getTTL (h : SameFields p q) : Flood.getTTL q = Flood.getTTL p := by
  rw [Flood.getTTL, Flood.getTTL, h _ (by decide) (by decide)]

/-- The type of the flood is the last field. -/
theorem getFloodType (h : SameFields p q) : Flood.getFloodType q = Flood.getFloodType p := by
  rw [Flood.getFloodType, Flood.getFloodType, h _ (by decide) (by decide)]

/-- A write behind the header keeps the fields. -/
theorem write (p : BasePacket) {off : Nat} (bs : List UInt8)
    (h : 17 ≤ off) : SameFields p (p.write off bs) :=
  fun _ _ hi => Buffer.write_of_lt _ _ (Nat.lt_of_lt_of_le hi h)

/-- The type is no field. -/
theorem setType (p : BasePacket) (t : PacketType) : SameFields p (p.setType t) := by
  intro i h1 _
  rw [BasePacket.setType, BasePacket.write_buffer, Buffer.write_of_ge _ _ (by simpa using h1)]

end SameFields

/-- `setType` sets the type. -/
theorem getType_setType (p : BasePacket) (t : PacketType) : (p.setType t).getType = t := by
  have hbits : ∀ b : UInt8, ∀ t : PacketType, ((b &&& ~~~3) ||| t.code) &&& 3 = t.code := by
    intro b t
    cases t <;> revert b <;> decide +kernel
  have hbyte : (p.setType t).buffer 0 &&& 3 = t.code := hbits (p.buffer 0) t
  unfold BasePacket.getType
  rw [hbyte]
  cases t <;> rfl

/-- The type depends on two bits of the first byte. -/
theorem getType_congr {p q : BasePacket} (h : q.buffer 0 &&& 3 = p.buffer 0 &&& 3) :
    q.getType = p.getType := by
  unfold BasePacket.getType
  rw [h]

/-- The type is in the first byte. -/
theorem getType_write (p : BasePacket) {off : Nat} (bs : List UInt8) (h : 0 < off) :
    (p.write off bs).getType = p.getType := by
  rw [BasePacket.getType, BasePacket.getType, BasePacket.write_buffer,
    Buffer.write_of_lt _ _ h]

/-- A flood packet is left alone by the access class. -/
theorem setType_flood {p : BasePacket} (h : p.getType = .flood) : p.setType .flood = p := by
  rw [← h, BasePacket.setType_getType]

/-! ### The history -/

/-- The history contains a flood exactly if it is one of the entries it holds. -/
theorem contains_iff (h : FloodHistory) (f : FloodHistory.Entry) :
    h.contains f.id f.seq = true ↔ f ∈ h.recent := by
  unfold FloodHistory.contains
  rw [Ring.search_eq, List.any_eq_true]
  constructor
  · rintro ⟨e, he, htest⟩
    simp only [Bool.and_eq_true, decide_eq_true_eq] at htest
    obtain ⟨hseq, hid⟩ := htest
    have heq : e = f := by
      cases e
      cases f
      simp_all
    rwa [← heq]
  · intro hf
    exact ⟨f, hf, by simp⟩

/-- `insert` for one flood after another. -/
def insertAll (h : FloodHistory) (fs : List FloodHistory.Entry) : FloodHistory :=
  fs.foldl (fun h f => h.insert f.id f.seq) h

/-- Behind any sequence of calls of `insert` the history contains exactly the last 128 floods. -/
theorem contains_insertAll (hist : Nat → FloodHistory.Entry) (fs : List FloodHistory.Entry)
    (id : NodeId) (seq : Nat) :
    (insertAll (FloodHistory.new hist) fs).contains id seq = true ↔
      (⟨id, seq⟩ : FloodHistory.Entry) ∈ fs.rtake (min fs.length 128) := by
  have hempty : (FloodHistory.new hist).recent = [] := rfl
  have hrecent : (insertAll (FloodHistory.new hist) fs).recent = fs.reverse.take 128 := by
    rw [insertAll]
    exact (Ring.recent_foldl_insert (FloodHistory.new hist) fs).trans
      (by rw [hempty, List.append_nil])
  have hend : fs.reverse.take (min fs.length 128) = fs.reverse.take 128 := by
    rw [← List.take_take, List.take_of_length_le]
    rw [List.length_take, List.length_reverse]
    exact Nat.min_le_right _ _
  rw [contains_iff _ ⟨id, seq⟩, hrecent, List.rtake_eq_reverse_take_reverse, List.mem_reverse, hend]

/-! ### The parts of `recv_flood` -/

section Parts

variable {host : Host} {clock : Clock} {r r' : AwdsRouting} {p p' q : BasePacket}

/-- The table of neighbours is the same, and what belongs to it. -/
structure SameNeighbors (r r' : AwdsRouting) : Prop where
  neighbors : r'.neighbors = r.neighbors
  hop2list : r'.hop2list = r.hop2list
  linkFailBlocker : r'.linkFailBlocker = r.linkFailBlocker

/-- The history of floods is the same too. -/
structure SameTables (r r' : AwdsRouting) : Prop extends SameNeighbors r r' where
  floodHistory : r'.floodHistory = r.floodHistory

/-- Two steps that keep the table of neighbours keep it together. -/
theorem SameNeighbors.trans {r r' r'' : AwdsRouting} (h : SameNeighbors r r')
    (h' : SameNeighbors r' r'') : SameNeighbors r r'' :=
  ⟨h'.neighbors.trans h.neighbors, h'.hop2list.trans h.hop2list,
    h'.linkFailBlocker.trans h.linkFailBlocker⟩

/-- Nothing has changed yet. -/
theorem SameTables.refl (r : AwdsRouting) : SameTables r r := ⟨⟨rfl, rfl, rfl⟩, rfl⟩

/-- The tap interface keeps the header fields and the tables. -/
theorem recvBroadcast_keeps (h : r.recvBroadcast host clock p = .ok (r', p')) :
    SameFields p p' ∧ SameTables r r' := by
  unfold recvBroadcast at h
  simp only at h
  split at h
  · cases h
    exact ⟨.refl p, ⟨⟨rfl, rfl, rfl⟩, rfl⟩⟩
  split at h
  · cases h
    exact ⟨.refl p, ⟨⟨rfl, rfl, rfl⟩, rfl⟩⟩
  · obtain ⟨len, hlen, h⟩ := bind_eq_ok.mp h
    obtain ⟨⟨cu', buf, ok⟩, hdec, h⟩ := bind_eq_ok.mp h
    have hfields : SameFields p { p with buffer := buf } := fun i _ hi =>
      decryptDupDetect_of_lt hdec hi
    simp only at h
    split at h
    · cases h
      exact ⟨hfields, ⟨⟨rfl, rfl, rfl⟩, rfl⟩⟩
    · cases h
      exact ⟨hfields, ⟨⟨rfl, rfl, rfl⟩, rfl⟩⟩

/-- The check of a signature keeps a packet whose signature is right, and the tables. -/
theorem checkSignature_keeps {valid : Bool}
    (h : r.checkSignature host p = .ok (r', p', valid)) :
    (valid = true → p' = p) ∧ SameTables r r' := by
  unfold checkSignature at h
  split at h
  · cases h
    exact ⟨fun _ => rfl, .refl r⟩
  · rename_i cu hcu
    obtain ⟨len, hlen, h⟩ := bind_eq_ok.mp h
    have hsig : (cu.verifySignature host.ccm (SrcPacket.getSrc p) p.buffer len noSign).2.2 = true
        → (cu.verifySignature host.ccm (SrcPacket.getSrc p) p.buffer len noSign).2.1 = p.buffer :=
      verifySignature_ok pairwise_noSign
    generalize cu.verifySignature host.ccm (SrcPacket.getSrc p) p.buffer len noSign = out
      at h hsig
    cases h
    refine ⟨fun hok => ?_, ⟨⟨rfl, rfl, rfl⟩, rfl⟩⟩
    rw [hsig hok]

/-- The topo branch keeps a packet whose signature is right, and the tables. -/
theorem handleTopo_keeps {valid : Bool}
    (h : r.handleTopo host clock p = .ok (r', p', valid)) :
    (valid = true → p' = p) ∧ SameTables r r' := by
  obtain ⟨⟨r1, p1, ok⟩, hsig, h⟩ := bind_eq_ok.mp h
  obtain ⟨hp, hr⟩ := checkSignature_keeps hsig
  simp only at h
  split at h
  · cases h
    exact ⟨fun hv => absurd hv (by decide), hr⟩
  · rename_i hvalid
    obtain ⟨t, ht, h⟩ := bind_eq_ok.mp h
    cases h
    exact ⟨fun _ => hp (by simpa using hvalid),
      ⟨⟨hr.neighbors, hr.hop2list, hr.linkFailBlocker⟩, hr.floodHistory⟩⟩

/-- `topolockRecv` only changes the topology. -/
theorem topolockRecv_keeps (h : r.topolockRecv host clock p = .ok r') :
    SameTables r r' := by
  unfold topolockRecv at h
  simp only at h
  split at h
  · cases h
    exact ⟨⟨rfl, rfl, rfl⟩, rfl⟩
  split at h
  · cases h
    exact ⟨⟨rfl, rfl, rfl⟩, rfl⟩
  split at h
  · obtain ⟨t, ht, h⟩ := bind_eq_ok.mp h
    cases h
    exact ⟨⟨rfl, rfl, rfl⟩, rfl⟩
  · cases h
    exact ⟨⟨rfl, rfl, rfl⟩, rfl⟩

/-- The handlers keep the header fields of a packet that goes on, and the tables. -/
theorem handleFlood_keeps {valid : Bool}
    (h : r.handleFlood host clock p = .ok (r', p', valid)) :
    (valid = true → SameFields p p') ∧ SameTables r r' := by
  unfold handleFlood at h
  split at h
  · obtain ⟨hp, hr⟩ := handleTopo_keeps h
    refine ⟨fun hv => ?_, hr⟩
    rw [hp hv]
    exact .refl p
  split at h
  · cases h
    exact ⟨fun _ => .refl p, .refl r⟩
  · obtain ⟨⟨r1, p1⟩, hbc, h⟩ := bind_eq_ok.mp h
    cases h
    obtain ⟨hp, hr⟩ := recvBroadcast_keeps hbc
    exact ⟨fun _ => hp, hr⟩
  · obtain ⟨r1, htl, h⟩ := bind_eq_ok.mp h
    cases h
    exact ⟨fun _ => .refl p, topolockRecv_keeps htl⟩

/-- What `relayFlood` sends is the packet with the own identifier as its last hop and the
TTL decreased. -/
theorem relayFlood_sent (h : r.relayFlood host p = .ok (some q)) :
    q = (Flood.decrTTL (Flood.setLastHop p host.myNodeId)).setDest host.broadcastId ∧
      Flood.getTTL q ≠ 0 := by
  obtain ⟨silent, hsilent, h⟩ := bind_eq_ok.mp h
  split at h
  · cases h
  simp only at h
  split at h
  · cases h
  · rename_i httl
    cases h
    exact ⟨rfl, httl⟩

/-- `setLastHop` and `decrTTL` change the bytes 9 to 15 only. -/
theorem relayed_buffer_of_ne (p : BasePacket) (id : NodeId) {i : Nat} (h : i < 9 ∨ 16 ≤ i) :
    (Flood.decrTTL (Flood.setLastHop p id)).buffer i = p.buffer i := by
  have hlast : (Flood.setLastHop p id).buffer i = p.buffer i := by
    rcases h with h | h
    · exact Buffer.write_of_lt _ _ h
    · refine Buffer.write_of_ge _ _ ?_
      rw [NodeId.length_toArray]
      exact Nat.le_trans (by decide) h
  rw [← hlast]
  rcases h with h | h
  · exact Buffer.write_of_lt _ _ (Nat.lt_of_lt_of_le h (by decide))
  · exact Buffer.write_of_ge _ _ h

/-- `decrTTL` behind `setLastHop`, on the byte of the TTL. -/
theorem relayed_ttl (p : BasePacket) (id : NodeId) :
    (Flood.decrTTL (Flood.setLastHop p id)).buffer Flood.offsetTTL
      = p.buffer Flood.offsetTTL - 1 := by
  have hlast : (Flood.setLastHop p id).buffer Flood.offsetTTL = p.buffer Flood.offsetTTL := by
    rw [Flood.setLastHop, BasePacket.write_buffer,
      Buffer.write_of_ge _ _ (by rw [NodeId.length_toArray])]
  rw [← hlast]
  exact Buffer.write_at (Flood.setLastHop p id).buffer
    [(Flood.setLastHop p id).buffer Flood.offsetTTL - 1] Flood.offsetTTL 0 Nat.one_pos

/-- A byte that is not 0 after it was decreased was decreased by one. -/
theorem toNat_pred_add_one {b : UInt8} (h : b ≠ 0) : (b - 1).toNat + 1 = b.toNat := by
  revert b
  decide +kernel

/-- A packet that `recvFlood` sends on is new, and it is what the handler has left, with the
own identifier as its last hop and the TTL decreased. -/
theorem recvFlood_sent (h : r.recvFlood host clock p = .ok (r', some q)) :
    Flood.getTTL p ≠ 0 ∧ ∃ p', handleFlood host clock (r.admitFlood (p.setType .flood)).1
      (p.setType .flood) = .ok (r', p', true) ∧ r'.relayFlood host p' = .ok (some q) := by
  unfold recvFlood at h
  simp only at h
  split at h
  · -- Seen before or at its end: nothing is sent.
    cases h
  rename_i hadmit
  obtain ⟨⟨r1, p1, valid⟩, hhandle, h⟩ := bind_eq_ok.mp h
  simp only at h
  split at h
  · -- The handler has refused it: nothing is sent either.
    cases h
  rename_i hvalid
  obtain ⟨sent, hrelay, h⟩ := bind_eq_ok.mp h
  cases h
  have hvalid : valid = true := by simpa using hvalid
  subst hvalid
  -- A flood without a hop left is never admitted.
  refine ⟨fun httl => hadmit ?_, p1, hhandle, hrelay⟩
  have httl' : Flood.getTTL (p.setType .flood) = 0 := by
    rw [(SameFields.setType p .flood).getTTL, httl]
  unfold admitFlood
  simp only
  split
  · rfl
  · simp [httl']

/-- The history behind `admitFlood`. -/
theorem admitFlood_floodHistory (r : AwdsRouting) (p : BasePacket) :
    (r.admitFlood p).1.floodHistory =
      if r.floodHistory.contains (SrcPacket.getSrc p) (SrcPacket.getSeq p) then r.floodHistory
      else r.floodHistory.insert (SrcPacket.getSrc p) (SrcPacket.getSeq p) := by
  unfold admitFlood
  simp only
  split <;> rfl

/-- Behind `admitFlood` nothing touches the tables. -/
theorem recvFlood_keeps {sent : Option BasePacket}
    (h : r.recvFlood host clock p = .ok (r', sent)) :
    SameTables (r.admitFlood (p.setType .flood)).1 r' := by
  unfold recvFlood at h
  simp only at h
  split at h
  · cases h
    exact .refl _
  obtain ⟨⟨r1, p1, valid⟩, hhandle, h⟩ := bind_eq_ok.mp h
  have hkeeps := (handleFlood_keeps hhandle).2
  simp only at h
  split at h
  · cases h
    exact hkeeps
  · obtain ⟨out, hrelay, h⟩ := bind_eq_ok.mp h
    cases h
    exact hkeeps

/-- What `recvFlood` does to the history does not depend on the handlers. -/
theorem recvFlood_floodHistory {sent : Option BasePacket}
    (h : r.recvFlood host clock p = .ok (r', sent)) :
    r'.floodHistory = (r.admitFlood p).1.floodHistory := by
  rw [(recvFlood_keeps h).floodHistory, admitFlood_floodHistory, admitFlood_floodHistory,
    (SameFields.setType p .flood).getSrc, (SameFields.setType p .flood).getSeq]

/-- `recvFlood` keeps the table of neighbours. -/
theorem recvFlood_sameNeighbors {sent : Option BasePacket}
    (h : r.recvFlood host clock p = .ok (r', sent)) : SameNeighbors r r' := by
  have hadmit : SameNeighbors r (r.admitFlood (p.setType .flood)).1 := by
    unfold admitFlood
    simp only
    split <;> exact ⟨rfl, rfl, rfl⟩
  exact hadmit.trans (recvFlood_keeps h).toSameNeighbors

/-- What `recvFlood` sends on has the source and the number of the packet it got and a TTL
that is smaller by one and not 0. -/
theorem recvFlood_sent_fields (h : r.recvFlood host clock p = .ok (r', some q)) :
    SrcPacket.getSrc q = SrcPacket.getSrc p ∧ SrcPacket.getSeq q = SrcPacket.getSeq p ∧
      Flood.getTTL q + 1 = Flood.getTTL p ∧ 1 ≤ Flood.getTTL q := by
  obtain ⟨httl, p', hhandle, hrelay⟩ := recvFlood_sent h
  obtain ⟨rfl, hpos⟩ := relayFlood_sent hrelay
  have hfields := (SameFields.setType p .flood).trans ((handleFlood_keeps hhandle).1 rfl)
  -- Source and number lie in front of the bytes that the relay changes.
  have hread : ∀ {off n : Nat}, off + n ≤ 9 →
      (Flood.decrTTL (Flood.setLastHop p' host.myNodeId)).buffer.read off n
        = p'.buffer.read off n := fun hle =>
    Buffer.read_congr fun i _ hi => relayed_buffer_of_ne p' _ (.inl (by omega))
  refine ⟨?_, ?_, ?_, Nat.pos_of_ne_zero hpos⟩
  · rw [← hfields.getSrc]
    exact congrArg NodeId.fromArray (hread (by decide))
  · rw [← hfields.getSeq]
    exact congrArg ofBigEndian (hread (by decide))
  · rw [← hfields.getTTL] at httl ⊢
    have hbyte : p'.buffer Flood.offsetTTL ≠ 0 := fun h0 => httl (by simp [Flood.getTTL, h0])
    have hpred := toNat_pred_add_one hbyte
    rw [← relayed_ttl p' host.myNodeId] at hpred
    exact hpred

/-! ### Packets that are sent on -/

/-- A neighbour that is not in the table is not found. -/
theorem findNeighLoop_neg {ns : List NodeDescr} {id : NodeId} (h : ∀ nd ∈ ns, nd.id ≠ id)
    (n a b : Nat) : findNeighLoop ns id n a b < 0 := by
  induction n generalizing a b with
  | zero =>
    rw [findNeighLoop]
    omega
  | succ n ih =>
    rw [findNeighLoop]
    split
    · omega
    simp only
    split
    · omega
    · rename_i nd hnd
      rw [if_neg (h nd (List.mem_of_getElem? hnd))]
      split
      · exact ih _ _
      · exact ih _ _

/-- The relay sends a packet on whose TTL is above 1 and whose last hop is no neighbour. -/
theorem relayFlood_sends (hneigh : ∀ nd ∈ r.neighbors, nd.id ≠ Flood.getLastHop p)
    (httl : 2 ≤ Flood.getTTL p) : ∃ q, r.relayFlood host p = .ok (some q) := by
  have hsilent : r.silencedBy host (Flood.getLastHop p) = .ok false := by
    unfold silencedBy
    exact if_pos (findNeighLoop_neg hneigh _ _ _)
  have hbyte : p.buffer Flood.offsetTTL ≠ 0 := by
    intro h0
    rw [Flood.getTTL, h0] at httl
    exact absurd httl (by decide)
  have hpred := toNat_pred_add_one hbyte
  rw [← relayed_ttl p host.myNodeId] at hpred
  have hleft : Flood.getTTL (Flood.decrTTL (Flood.setLastHop p host.myNodeId)) ≠ 0 := by
    unfold Flood.getTTL at httl ⊢
    omega
  unfold relayFlood
  rw [hsilent]
  exact ⟨_, if_neg hleft⟩

/-- A new packet with a TTL above 1 whose handler returns and whose last hop is no neighbour
is sent on. -/
theorem recvFlood_sends (htype : p.getType = .flood)
    (hnew : r.floodHistory.contains (SrcPacket.getSrc p) (SrcPacket.getSeq p) = false)
    (httl : 2 ≤ Flood.getTTL p) (hneigh : ∀ nd ∈ r.neighbors, nd.id ≠ Flood.getLastHop p)
    (hhandle : ∀ h', ∃ r1 p1, handleFlood host clock { r with floodHistory := h' } p
      = .ok (r1, p1, true)) :
    ∃ r' q, r.recvFlood host clock p = .ok (r', some q) := by
  obtain ⟨r1, p1, hrun⟩ := hhandle (r.floodHistory.insert (SrcPacket.getSrc p) (SrcPacket.getSeq p))
  obtain ⟨hfields, htables⟩ := handleFlood_keeps hrun
  -- Nothing that relaying looks at was changed by the handler.
  have hsent : ∃ q, r1.relayFlood host p1 = .ok (some q) := by
    refine relayFlood_sends ?_ ?_
    · rw [htables.neighbors, (hfields rfl).getLastHop]
      exact hneigh
    · rw [(hfields rfl).getTTL]
      exact httl
  obtain ⟨q, hq⟩ := hsent
  refine ⟨r1, q, ?_⟩
  let h' := r.floodHistory.insert (SrcPacket.getSrc p) (SrcPacket.getSeq p)
  -- It is new and has hops left, so it is admitted.
  have hadmit : r.admitFlood p = ({ r with floodHistory := h' }, true) := by
    unfold admitFlood
    simp only [hnew, Bool.false_eq_true, if_false]
    rw [decide_eq_true (show Flood.getTTL p ≠ 0 by omega)]
  unfold recvFlood
  simp only [setType_flood htype, hadmit, Bool.not_true, Bool.false_eq_true, if_false]
  rw [hrun, except_bind_ok]
  simp only [Bool.not_true, Bool.false_eq_true, if_false]
  rw [hq, except_bind_ok]

/-- A decryption returns if the packet with the copies of its header fits into the
buffer. -/
theorem decryptDupDetect_returns (c : Ccm) (u : AesCcmCryptoUnit) (src : NodeId)
    (buf : Buffer) {data len : Nat} {sg : List MemoryBlock}
    (hfit : data + len + 16 + (16 + (sg.map MemoryBlock.size).sum) ≤ BasePacket.maxSize) :
    ∃ out, u.decryptDupDetect c src buf data len sg = .ok out := by
  unfold AesCcmCryptoUnit.decryptDupDetect AesCcmCryptoUnit.crypt
  simp only [if_neg (Nat.not_lt.mpr hfit), except_bind_ok]
  split
  · exact ⟨_, rfl⟩
  · exact ⟨_, rfl⟩

/-- The handler of a broadcast packet returns if the packet has the bytes of an encryption
and fits into the buffer with the copies of its header, and is no command to reset. -/
theorem handleFlood_returns (htopo : Flood.getFloodType p ≠ Flood.floodTypeTopo)
    (hsize : 49 ≤ p.size) (hfit : p.size + 10 ≤ BasePacket.maxSize)
    (hcmd : p.buffer Flood.floodHeaderEnd ≠ 2) :
    ∃ r' p', r.handleFlood host clock p = .ok (r', p', true) := by
  unfold handleFlood
  rw [if_neg htopo]
  -- One case for each kind of flood; the topology is excluded.
  split
  · exact ⟨_, _, rfl⟩
  · -- The tap interface returns whether it accepts the packet or not.
    have hbc : ∃ out, r.recvBroadcast host clock p = .ok out := by
      unfold recvBroadcast
      simp only
      split
      · exact ⟨_, rfl⟩
      split
      · exact ⟨_, rfl⟩
      · -- With a key the payload is decrypted, which needs its length and room for the trailer.
        rename_i cu hcu
        have hminus : p.sizeMinus (cryptoLen + Flood.floodHeaderEnd) = .ok (p.size - 49) :=
          if_neg (Nat.not_lt.mpr hsize)
        have hdec : ∃ out, cu.decryptDupDetect host.ccm (SrcPacket.getSrc p) p.buffer
            Flood.floodHeaderEnd (p.size - 49) extraSign = .ok out := by
          refine decryptDupDetect_returns _ _ _ _ ?_
          show 17 + (p.size - 49) + 16 + (16 + 10) ≤ BasePacket.maxSize
          omega
        obtain ⟨⟨cu', buf, ok⟩, hdec⟩ := hdec
        rw [hminus, except_bind_ok, hdec, except_bind_ok]
        simp only
        split
        · exact ⟨_, rfl⟩
        · exact ⟨_, rfl⟩
    obtain ⟨⟨r1, p1⟩, hrun⟩ := hbc
    rw [hrun]
    exact ⟨_, _, rfl⟩
  · -- The lock answers from the tables of the station, or not at all.
    have htl : ∃ r1, r.topolockRecv host clock p = .ok r1 := by
      unfold topolockRecv
      simp only
      split
      · exact ⟨_, rfl⟩
      split
      · exact ⟨_, rfl⟩
      exact ⟨_, rfl⟩
    obtain ⟨r1, hrun⟩ := htl
    rw [hrun]
    exact ⟨_, _, rfl⟩

end Parts

/-! ### Two stations -/

/-- The stations 1 and 2. -/
def pairHosts (b : Bool) : Host :=
  { Station.hopCount (if b then 2 else 1) with broadcastId := -1, ccm := nullCcm }

/-- A station that has just been started, with the handler of lock commands. -/
def pairRouting (b : Bool) : AwdsRouting where
  floodHistory := .new fun _ => ⟨0, 0⟩
  topology := RTopology.init (pairHosts b).toStation 0
  broadcastRegister t := if t = 100 then some .topoLock else none

/-- A command of the station 1 to lock all topologies, with a TTL of 2. -/
def lockPacket : BasePacket :=
  { Flood.setTTL ((pairRouting false).newFloodPacket (pairHosts false) 100).2 2 with
    size := Flood.floodHeaderEnd + 1 }

end Awds.Proofs
