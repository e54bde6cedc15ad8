import Awds.Proofs.PacketRefs

/-!
# `Awds.Proofs.PacketHandlers`: the handlers of unicast packets and their references

A handler that sends a packet may get it back within the call, since the station itself may be
its destination. A handler that then only changes data does no harm to the references
(`Quiet`, `Tidy.handle_quiet`). That all packets that come back are like this is read off their
bytes: `recv_unicast` writes the fields of the way and the trace only.

* The packets of `Traffic` and the frames have no trace, so they come back as they were
  (`plain_returns`).
* A reply to a ping has the trace of the request, and the trace pointer is chosen by its sender.
  A slot in the header behind the fields of the way could make a reply a request again. It
  would have to be the station's own reply to a packet of its own then, and its trace begins
  behind the header (`reply_returns`, `replyIntact_passed`).

`ping_recv` and `Traffic::send` keep the references in order (`Tidy.pingRecv`,
`Tidy.trafficSend`). `Traffic::send_reply` keeps one (`Tidy.sendReply`).
-/

set_option autoImplicit false

namespace Awds.Proofs

open Awds.Lib Awds.SendQueue Awds.AwdsRouting Awds.PacketWorld

/-! ### Packets that come back -/

section Returned

variable {host : Host} {clock : Clock} {r r' : AwdsRouting} {p q c : BasePacket}
  {action : UnicastAction}

/-- When `recv_unicast` gives a packet to a handler, and which. -/
theorem recvUnicast_deliver_iff : r.recvUnicast host clock p = .ok (r', .deliver q) ↔
    ComesTo host p ∧ UnicastPacket.getUcDest (passed host p) = host.myNodeId ∧
      q = passed host p ∧ r' = r := by
  constructor
  · intro h
    rw [recvUnicast_passed] at h
    split at h
    · cases h
    rename_i httl
    split at h
    · cases h
    rename_i hhop
    split at h
    · rename_i hdest
      cases h
      exact ⟨⟨httl, not_not.mp hhop⟩, hdest, rfl, rfl⟩
    · exact absurd h routeUnicast_not_deliver
  · rintro ⟨hcomes, hdest, rfl, rfl⟩
    exact recvUnicast_delivers hcomes hdest

/-- `recv_unicast` keeps the table of neighbours. -/
theorem recvUnicast_neighbors (h : r.recvUnicast host clock p = .ok (r', action)) :
    r'.neighbors = r.neighbors := by
  rw [recvUnicast_passed] at h
  split at h
  · cases h
    rfl
  split at h
  · cases h
    rfl
  split at h
  · cases h
    rfl
  · obtain ⟨⟨t, hop, found⟩, -, h⟩ := bind_eq_ok.mp h
    dsimp only at h
    split at h <;> cases h <;> rfl

/-- Sending a unicast packet is receiving it, and the routing of packets does not touch the
neighbours. -/
theorem sendUnicast_neighbors (h : r.sendUnicast host clock c = .ok (r', action)) :
    r'.neighbors = r.neighbors :=
  recvUnicast_neighbors h

/-- The type is in the first byte. -/
theorem setType_buffer (p : BasePacket) (t : PacketType) {i : Nat} (h : 0 < i) :
    (p.setType t).buffer i = p.buffer i := by
  unfold BasePacket.setType
  rw [BasePacket.write_buffer]
  exact Buffer.write_of_ge _ _ h

/-- The TTL is one byte, and the others stay. -/
theorem incTTL_buffer (p : BasePacket) {i : Nat} (h : i ≠ UnicastPacket.offsetTTL) :
    (UnicastPacket.incTTL p).buffer i = p.buffer i := by
  unfold UnicastPacket.incTTL
  rw [BasePacket.write_buffer]
  exact Buffer.write_of_outside _ _ (Nat.lt_or_gt_of_ne h)

/-- The packet that `sendUnicast` passes to `recv_unicast`. -/
def sentBy (host : Host) (c : BasePacket) : BasePacket :=
  UnicastPacket.setNextHop (UnicastPacket.incTTL (c.setType .unicast)) host.myNodeId

/-- What is passed to `recv_unicast` is a unicast packet. -/
theorem sentBy_type (host : Host) (c : BasePacket) : (sentBy host c).getType = .unicast := by
  unfold sentBy UnicastPacket.setNextHop UnicastPacket.incTTL
  rw [getType_write _ _ (by decide), getType_write _ _ (by decide), getType_setType]

/-- `sendUnicast` writes the type, the next hop and the TTL. -/
theorem sentBy_buffer (host : Host) (c : BasePacket) {i : Nat} (h0 : 0 < i)
    (hi : i < 15 ∨ 22 ≤ i) : (sentBy host c).buffer i = c.buffer i := by
  unfold sentBy
  rw [setNextHop_buffer _ _ (by omega), incTTL_buffer _ (by show i ≠ 21; omega)]
  exact setType_buffer c .unicast h0

/-- The trace flag is set by the caller and stays. -/
theorem sentBy_flag (host : Host) (c : BasePacket) :
    SrcPacket.getTraceFlag (sentBy host c) = SrcPacket.getTraceFlag c := by
  rw [← getTraceFlag_setType c .unicast]
  refine getTraceFlag_congr ?_
  unfold sentBy
  rw [setNextHop_buffer _ _ (by decide)]
  exact incTTL_buffer _ (by decide)

/-- So does the trace pointer. -/
theorem sentBy_pointer (host : Host) (c : BasePacket) :
    TraceUcPacket.getTracePointer (sentBy host c) = TraceUcPacket.getTracePointer c :=
  getTracePointer_congr fun _ _ _ => sentBy_buffer host c (by omega) (by omega)

/-- The bytes of a packet that comes back to its sender, outside of the fields that are written
on the way and of its trace. -/
theorem returned_buffer (host : Host) (c : BasePacket) {i : Nat} (h0 : 0 < i)
    (hi : i < 15 ∨ 22 ≤ i) (htrace : SrcPacket.getTraceFlag c = true →
      (i < TraceUcPacket.getTracePointer c ∨ TraceUcPacket.getTracePointer c + 6 ≤ i) ∧
        (i < 23 ∨ 25 ≤ i)) : (passed host (sentBy host c)).buffer i = c.buffer i := by
  rw [← sentBy_flag host, ← sentBy_pointer host] at htrace
  rw [passed_buffer (sentBy_type host c) (by show i ≠ 21; omega) htrace]
  exact sentBy_buffer host c h0 hi

/-- The destination of a packet is read from its bytes 9 to 14. -/
theorem getUcDest_congr (h : ∀ i, 9 ≤ i → i < 15 → q.buffer i = p.buffer i) :
    UnicastPacket.getUcDest q = UnicastPacket.getUcDest p := by
  unfold UnicastPacket.getUcDest
  rw [Buffer.read_congr h]

/-- The source of a packet is read from its bytes 1 to 6. -/
theorem getSrc_congr (h : ∀ i, 1 ≤ i → i < 7 → q.buffer i = p.buffer i) :
    SrcPacket.getSrc q = SrcPacket.getSrc p := by
  unfold SrcPacket.getSrc
  rw [Buffer.read_congr h]

/-- The protocol of a packet is read from its byte 22. -/
theorem getUcPacketType_congr (h : q.buffer 22 = p.buffer 22) :
    UnicastPacket.getUcPacketType q = UnicastPacket.getUcPacketType p := congrArg UInt8.toNat h

/-! #### Pings -/

/-- The reply of `ping_recv` to the request `q`. -/
def replyTo (host : Host) (q : BasePacket) : BasePacket :=
  let p := q.setType .unicast
  (SrcPacket.setSrc (UnicastPacket.setUcDest p (SrcPacket.getSrc p)) host.myNodeId).write
    Pinger.pingDirection [Pinger.reply]

/-- `ping_recv` answers a request and does nothing with a reply. -/
theorem pingRecv_eq : Pinger.pingRecv host clock r q =
    if q.buffer Pinger.pingDirection = Pinger.request then do
      let (r, action) ← r.sendUnicast host clock (replyTo host q)
      .ok (r, some action)
    else .ok (r, none) := by
  have hbyte : (q.setType .unicast).buffer Pinger.pingDirection = q.buffer Pinger.pingDirection :=
    setType_buffer q .unicast (by decide)
  unfold Pinger.pingRecv
  dsimp only
  rw [hbyte]
  rfl

/-- Between the destination and the mark, and behind the mark, the reply is the request. -/
theorem replyTo_buffer (host : Host) (q : BasePacket) {i : Nat} (hi : 15 ≤ i) (hmark : i ≠ 25) :
    (replyTo host q).buffer i = q.buffer i := by
  unfold replyTo SrcPacket.setSrc UnicastPacket.setUcDest
  simp only [BasePacket.write_buffer]
  rw [Buffer.write_of_outside _ _ (by show i < 25 ∨ 25 + 1 ≤ i; omega),
    Buffer.write_of_ge _ _ (by rw [NodeId.length_toArray]; show 1 + 6 ≤ i; omega),
    Buffer.write_of_ge _ _ (by rw [NodeId.length_toArray]; exact hi)]
  exact setType_buffer q .unicast (by omega)

/-- The answer is a reply. -/
theorem replyTo_direction (host : Host) (q : BasePacket) :
    (replyTo host q).buffer 25 = Pinger.reply := by
  unfold replyTo
  rw [BasePacket.write_buffer]
  exact Buffer.write_singleton _ Pinger.pingDirection _

/-- The answer has a trace exactly if the request has one. -/
theorem replyTo_flag (host : Host) (q : BasePacket) :
    SrcPacket.getTraceFlag (replyTo host q) = SrcPacket.getTraceFlag q := by
  rw [← getTraceFlag_setType q .unicast]
  refine getTraceFlag_congr ?_
  unfold replyTo SrcPacket.setSrc UnicastPacket.setUcDest
  simp only [BasePacket.write_buffer]
  rw [Buffer.write_of_lt _ _ (by decide), Buffer.write_of_lt _ _ (by decide),
    Buffer.write_of_lt _ _ (by decide)]

/-- The trace of the answer goes on where that of the request ends. -/
theorem replyTo_pointer (host : Host) (q : BasePacket) :
    TraceUcPacket.getTracePointer (replyTo host q) = TraceUcPacket.getTracePointer q :=
  getTracePointer_congr fun _ _ _ => replyTo_buffer host q (by omega) (by omega)

/-- The reply goes to the source of the request. -/
theorem replyTo_dest (host : Host) (q : BasePacket) :
    UnicastPacket.getUcDest (replyTo host q) = SrcPacket.getSrc q := by
  have hsrc : SrcPacket.getSrc (q.setType .unicast) = SrcPacket.getSrc q :=
    getSrc_congr fun i hi _ => setType_buffer q .unicast hi
  have hself := Buffer.read_write_self (q.setType .unicast).buffer 9 (SrcPacket.getSrc q).toArray
  rw [NodeId.length_toArray] at hself
  unfold UnicastPacket.getUcDest
  have hread : (replyTo host q).buffer.read UnicastPacket.offsetUcDest NodeId.size
      = (SrcPacket.getSrc q).toArray := by
    rw [← hself, ← hsrc]
    unfold replyTo SrcPacket.setSrc UnicastPacket.setUcDest
    simp only [BasePacket.write_buffer]
    refine Buffer.read_congr fun i hi hlt => ?_
    have hlt' : i < 9 + 6 := hlt
    rw [Buffer.write_of_lt _ _ (by show i < 25; omega)]
    refine Buffer.write_of_ge _ _ ?_
    rw [NodeId.length_toArray]
    show 1 + 6 ≤ i
    have hge : 9 ≤ i := hi
    omega
  rw [hread, NodeId.fromArray_toArray]

/-- A node that is appended to the reply is not written over its header behind the fields of
the way, or the reply goes to another station. -/
def ReplyIntact (host : Host) (q : BasePacket) : Prop :=
  SrcPacket.getTraceFlag q = true →
    TraceUcPacket.getTracePointer q ≤ 16 ∨ 26 ≤ TraceUcPacket.getTracePointer q ∨
      SrcPacket.getSrc q ≠ host.myNodeId

/-- A reply that comes back is a ping, and it is not taken for a request. -/
theorem reply_returns (hintact : ReplyIntact host q)
    (h : r.sendUnicast host clock (replyTo host q) = .ok (r', .deliver c)) :
    UnicastPacket.getUcPacketType c = UnicastPacket.getUcPacketType q ∧
      c.buffer Pinger.pingDirection ≠ Pinger.request := by
  obtain ⟨-, hdest, rfl, -⟩ := recvUnicast_deliver_iff.mp h
  have hown : UnicastPacket.getUcDest (passed host (sentBy host (replyTo host q)))
      = host.myNodeId := hdest
  -- the slot of the trace lies in front of the type or behind the mark
  have hslot : SrcPacket.getTraceFlag (replyTo host q) = true →
      TraceUcPacket.getTracePointer (replyTo host q) ≤ 16 ∨
        26 ≤ TraceUcPacket.getTracePointer (replyTo host q) := by
    intro hflag
    rw [replyTo_flag] at hflag
    rw [replyTo_pointer]
    by_contra hinside
    rw [not_or, not_le, not_le] at hinside
    have hother : SrcPacket.getSrc q ≠ host.myNodeId := by
      rcases hintact hflag with hle | hge | hne
      · omega
      · omega
      · exact hne
    refine hother ?_
    rw [← replyTo_dest host q, ← hown]
    refine (getUcDest_congr fun i hi hlt => returned_buffer host _ (by omega) (.inl hlt) ?_).symm
    intro _
    rw [replyTo_pointer]
    omega
  constructor
  · refine getUcPacketType_congr ?_
    rw [← replyTo_buffer host q (show 15 ≤ 22 by decide) (by decide)]
    refine returned_buffer host _ (by decide) (by decide) fun hflag => ?_
    have := hslot hflag
    omega
  · have hmark : (passed host (sentBy host (replyTo host q))).buffer 25 = Pinger.reply := by
      rw [← replyTo_direction host q]
      refine returned_buffer host _ (by decide) (by decide) fun hflag => ?_
      have := hslot hflag
      omega
    show (passed host (sentBy host (replyTo host q))).buffer 25 ≠ Pinger.request
    rw [hmark]
    decide

/-- A packet of another station that is delivered has lost its source only to an address in
front of the trace of the reply. -/
theorem replyIntact_passed (htype : c.getType = .unicast)
    (hsrc : SrcPacket.getSrc c ≠ host.myNodeId) : ReplyIntact host (passed host c) := by
  intro _
  by_contra hinside
  simp only [not_or, not_le, not_not] at hinside
  obtain ⟨hlo, hhi, hown⟩ := hinside
  refine hsrc (Eq.trans ?_ hown)
  by_cases happ : Appends c
  · have hptr : TraceUcPacket.getTracePointer (passed host c)
        = (TraceUcPacket.getTracePointer c + 6) % 65536 := by
      rw [passed_traced htype happ.1, appendNode_pointer _ ((hasSpace_decrTTL c).mpr happ.2),
        getTracePointer_decrTTL]
    have hlt := getTracePointer_lt c
    rw [hptr] at hlo hhi
    have hbehind : 11 ≤ TraceUcPacket.getTracePointer c := by omega
    refine (getSrc_congr fun i hi hlt' => passed_buffer htype (by show i ≠ 21; omega) ?_).symm
    intro _
    omega
  · rw [passed_of_not_appends htype happ]
    exact (getSrc_congr fun i _ hlt => decrTTL_buffer c (by show i ≠ 21; omega)).symm

/-! #### Traffic and frames -/

/-- A packet without control bits comes back as it was, but for the fields of the way. -/
theorem plain_returns (hplain : PlainUnicast c)
    (h : r.sendUnicast host clock c = .ok (r', .deliver q)) : AgreeOutside 15 22 c q := by
  have hincr : AgreeOutside 15 22 c (UnicastPacket.incTTL c) :=
    .write c (by decide) (Nat.le_refl 22)
  have hsent : AgreeOutside 15 22 c (sentBy host c) := by
    unfold sentBy
    rw [hplain.setType]
    exact hincr.trans (.write _ (Nat.le_refl 15) (by rw [NodeId.length_toArray]; decide))
  exact hsent.trans (recvUnicast_agree (hsent.plainUnicast hplain) h (.inr rfl))

/-- A new packet has the protocol that it was made for. -/
theorem newUnicastPacket_type (host : Host) (r : AwdsRouting) (type : Nat) :
    (r.newUnicastPacket host type).2.buffer 22 = UInt8.ofNat type := by
  unfold newUnicastPacket UnicastPacket.setUcPacketType
  dsimp only
  rw [BasePacket.write_buffer]
  exact Buffer.write_singleton _ UnicastPacket.offsetUcType _

/-- A packet of the traffic generator. -/
theorem trafficPacket_spec (host : Host) (r : AwdsRouting) (t : TrafficPacketType) (dest : NodeId) :
    PlainUnicast (TrafficPacket.new host r t dest).2 ∧
      (TrafficPacket.new host r t dest).2.buffer 22 = 96 ∧
      (TrafficPacket.new host r t dest).2.buffer 27 = t.code := by
  have hnew := plainUnicast_newUnicastPacket host r packetTypeTraffic
  have htype := newUnicastPacket_type host r packetTypeTraffic
  unfold TrafficPacket.new
  generalize r.newUnicastPacket host packetTypeTraffic = new at hnew htype
  obtain ⟨r', p⟩ := new
  dsimp only at hnew htype ⊢
  rw [hnew.setType]
  -- the packet in front of its destination
  generalize hmarked : ({ p.write TrafficPacket.offsetType [t.code] with
    size := TrafficPacket.trafficHeaderEnd } : BasePacket) = q
  have hbuf : q.buffer = p.buffer.write 27 [t.code] := by rw [← hmarked]; rfl
  have hplain : PlainUnicast q := by
    show q.buffer 0 = 2
    rw [hbuf, Buffer.write_of_lt _ _ (by decide)]
    exact hnew
  rw [hplain.setType]
  have hkept : ∀ i, i < 9 ∨ 15 ≤ i → ((UnicastPacket.setUcDest q dest).setDest dest).buffer i
      = q.buffer i := by
    intro i hi
    refine Buffer.write_of_outside _ _ ?_
    rwa [NodeId.length_toArray]
  refine ⟨(hkept 0 (by decide)).trans hplain, ?_, ?_⟩
  · rw [hkept 22 (by decide), hbuf, Buffer.write_of_lt _ _ (by decide), htype]
    rfl
  · rw [hkept 27 (by decide), hbuf]
    exact Buffer.write_singleton _ 27 _

/-- The packet around a frame, encrypted or not. -/
theorem unicastFrame_spec {frame : List UInt8} {dest : NodeId}
    (h : r.unicastFrame host frame dest = .ok (r', p)) :
    PlainUnicast p ∧ p.buffer 22 = UInt8.ofNat TapInterface.protoNr := by
  have hkept : ∀ i < 23, p.buffer i = (r.plainFrame host frame dest).2.buffer i :=
    fun i hi => encryptFrame_header h hi
  have hplain := (plainFrame_spec host r frame dest).1
  refine ⟨(hkept 0 (by decide)).trans hplain, (hkept 22 (by decide)).trans ?_⟩
  rw [← newUnicastPacket_type host r TapInterface.protoNr]
  show (((r.newUnicastPacket host TapInterface.protoNr).2.setType .unicast).buffer.write 9
    dest.toArray).write 23 frame 22 = _
  rw [Buffer.write_of_lt _ _ (by decide),
    Buffer.write_of_ge _ _ (by rw [NodeId.length_toArray]; decide)]
  exact setType_buffer _ _ (by decide)

/-! #### The table of neighbours stays -/

/-- An encryption changes the crypto unit only. -/
theorem encryptFrame_neighbors {off len : Nat} {sg : List MemoryBlock}
    (h : r.encryptFrame host p off len sg = .ok (r', q)) : r'.neighbors = r.neighbors := by
  unfold encryptFrame at h
  split at h
  · cases h
    rfl
  · obtain ⟨⟨cu, buf⟩, -, h⟩ := bind_eq_ok.mp h
    cases h
    rfl

/-- A frame from the device is sent on, which leaves the neighbours as they are. -/
theorem tapRecv_neighbors {frame : List UInt8} {outcome : Option BasePacket ⊕ UnicastAction}
    (h : TapInterface.tapRecv host clock r frame = .ok (r', outcome)) :
    r'.neighbors = r.neighbors := by
  unfold TapInterface.tapRecv at h
  split at h
  · obtain ⟨⟨r1, sent⟩, hsend, h⟩ := bind_eq_ok.mp h
    cases h
    obtain ⟨⟨r2, p2⟩, henc, hsend⟩ := bind_eq_ok.mp hsend
    have hsame := encryptFrame_neighbors henc
    exact (recvFlood_sameNeighbors hsend).neighbors.trans hsame
  · rename_i dest hdest
    obtain ⟨⟨r1, sent⟩, hsend, h⟩ := bind_eq_ok.mp h
    cases h
    obtain ⟨⟨r2, p2⟩, henc, hsend⟩ := bind_eq_ok.mp hsend
    have hsame : r2.neighbors = (r.plainFrame host frame dest).1.neighbors :=
      encryptFrame_neighbors henc
    exact (sendUnicast_neighbors hsend).trans hsame

/-- A frame for the device changes the crypto unit and the table of addresses only. -/
theorem tapRecvUnicast_neighbors (h : TapInterface.recvUnicast host clock r p = .ok (r', q)) :
    r'.neighbors = r.neighbors := by
  unfold TapInterface.recvUnicast at h
  split at h
  · cases h
    rfl
  · obtain ⟨len, -, h⟩ := bind_eq_ok.mp h
    obtain ⟨⟨cu, buf, ok⟩, -, h⟩ := bind_eq_ok.mp h
    dsimp only at h
    split at h <;> cases h <;> rfl

end Returned

/-! ### The handlers -/

section Handlers

variable {host : Host} {clock : Clock} {w w' : PacketWorld} {held : PacketPtr → Nat}
  {p response : PacketPtr} {c : BasePacket} {n : Nat}
  {deliver : PacketWorld → PacketPtr → BasePacket → Result PacketWorld}

/-- What becomes of a packet that its caller holds. -/
theorem Tidy.finish {action : UnicastAction} (h : Tidy w held) (hp : 0 < held p)
    (hdeliver : ∀ c, action = .deliver c → deliver w p c = .ok w' → Tidy w' held)
    (hrun : PacketWorld.finish deliver w p action = .ok w') : Tidy w' held := by
  cases action with
  | drop =>
    cases hrun
    exact h
  | deliver c => exact hdeliver c rfl hrun
  | send c =>
    cases hrun
    exact h.send (h.refcount_pos hp) false

/-- The handler of frames holds no packet, so the counters stay right. -/
theorem Tidy.tapRecvUnicast (h : Tidy w held)
    (hrun : w.tapRecvUnicast host clock c = .ok w') : Tidy w' held := by
  obtain ⟨⟨r, q⟩, htap, hrun⟩ := bind_eq_ok.mp hrun
  cases hrun
  exact h.withRouting (congrArg List.length (tapRecvUnicast_neighbors htap))

/-- A handler is registered for its own number. -/
theorem unicastRegister_protocol {u : UnicastHandler} {type : Nat}
    (hreg : w.unicastRegister type = some u) : u.protocol = type := by
  have hu := List.find?_some hreg
  rw [decide_eq_true_iff] at hu
  exact hu.1

/-- No two handlers have the same number. -/
theorem unicastRegister_eq {u v : UnicastHandler} {type : Nat}
    (hreg : w.unicastRegister type = some v) (htype : type = u.protocol) : v = u := by
  have hv := (unicastRegister_protocol hreg).trans htype
  have hinj : ∀ u v : UnicastHandler, v.protocol = u.protocol → v = u := by
    intro u v
    cases u <;> cases v <;> decide
  exact hinj u v hv

/-- The handler `u` would only change data. -/
def QuietFor (w : PacketWorld) (c : BasePacket) : UnicastHandler → Prop
  | .tap => True
  | .ping => c.buffer Pinger.pingDirection ≠ Pinger.request
  | .metric => False
  | .traffic => match w.traffic.type with
    | .src => TrafficPacket.hasType c .fromsink = false
    | .sink => TrafficPacket.hasType c .fromsrc = false

/-- The handler of the packet only changes data. -/
def Quiet (w : PacketWorld) (c : BasePacket) : Prop :=
  ∀ u, w.unicastRegister (UnicastPacket.getUcPacketType c) = some u → QuietFor w c u

/-- Each protocol has one handler, so a packet is quiet if this one is. -/
theorem quiet_of_type {u : UnicastHandler}
    (htype : UnicastPacket.getUcPacketType c = u.protocol) (hquiet : QuietFor w c u) :
    Quiet w c := by
  intro v hreg
  rw [unicastRegister_eq hreg htype]
  exact hquiet

/-- The references stay as they are. -/
theorem Tidy.handle_quiet (h : Tidy w held) (hquiet : Quiet w c)
    (hrun : handle host clock response n w p c = .ok w') : Tidy w' held := by
  -- Without fuel the call has no result.
  cases n with
  | zero => cases hrun
  | succ n =>
    rw [handle] at hrun
    -- Nobody is registered for the type, or the handler of one client runs.
    cases hreg : w.unicastRegister (UnicastPacket.getUcPacketType c) with
    | none =>
      rw [hreg] at hrun
      cases hrun
      exact h
    | some u =>
      have hu := hquiet u hreg
      rw [hreg] at hrun
      cases u with
      | tap => exact h.tapRecvUnicast hrun
      -- A ping that is an answer is only printed.
      | ping =>
        have hmark : c.buffer Pinger.pingDirection ≠ Pinger.request := hu
        dsimp only at hrun
        unfold PacketWorld.pingRecv at hrun
        rw [pingRecv_eq, if_neg hmark] at hrun
        cases hrun
        exact h
      -- No metric packet is quiet.
      | metric => exact absurd hu id
      -- Each side of the traffic answers packets of one type, and this one has another.
      | traffic =>
        dsimp only at hrun
        unfold QuietFor at hu
        unfold PacketWorld.trafficRecv at hrun
        split at hrun
        · rename_i hsrc
          rw [hsrc] at hu
          dsimp only at hu
          rw [hu, if_neg Bool.false_ne_true] at hrun
          cases hrun
          exact h
        · rename_i hsink
          rw [hsink] at hu
          dsimp only at hu
          rw [hu, if_neg Bool.false_ne_true] at hrun
          cases hrun
          exact h

/-- A packet that its sender holds goes out, or comes back to a handler that only changes data. -/
theorem Tidy.sendUnicast (h : Tidy w held) (hp : 0 < held p)
    (hquiet : ∀ r q, w.routing.sendUnicast host clock c = .ok (r, .deliver q) →
      Quiet { w with routing := r } q)
    (hrun : w.sendUnicast host clock (handle host clock response n) p c = .ok w') :
    Tidy w' held := by
  obtain ⟨⟨r, action⟩, hsend, hrun⟩ := bind_eq_ok.mp hrun
  have hr := h.withRouting (congrArg List.length (sendUnicast_neighbors hsend))
  refine hr.finish hp (fun q hq hdeliver => ?_) hrun
  subst hq
  exact hr.handle_quiet (hquiet r q hsend) hdeliver

/-! #### Pings -/

/-- `ping_recv` takes a reference while it sends the reply. -/
theorem Tidy.pingRecv (h : Tidy w held) (hp : 0 < held p)
    (htype : UnicastPacket.getUcPacketType c = Pinger.packetTypeUcPing)
    (hintact : ReplyIntact host c)
    (hrun : w.pingRecv host clock (handle host clock response n) p c = .ok w') :
    Tidy w' held := by
  unfold PacketWorld.pingRecv at hrun
  rw [pingRecv_eq] at hrun
  split at hrun
  · obtain ⟨⟨r, reply⟩, hping, hrun⟩ := bind_eq_ok.mp hrun
    obtain ⟨⟨r1, action⟩, hsend, hping⟩ := bind_eq_ok.mp hping
    cases hping
    obtain ⟨w1, hfinish, hrun⟩ := bind_eq_ok.mp hrun
    cases hrun
    have hr := h.withRouting (congrArg List.length (sendUnicast_neighbors hsend))
    have href := hr.ref (hr.refcount_pos hp)
    refine Tidy.unref (href.finish (single_pos held p) (fun q hq hdeliver => ?_) hfinish)
    subst hq
    obtain ⟨hq, hmark⟩ := reply_returns hintact hsend
    exact href.handle_quiet (quiet_of_type (u := .ping) (hq.trans htype) hmark) hdeliver
  · cases hrun
    exact h

/-! #### Traffic -/

/-- The search for a route counts no references. -/
theorem Tidy.isReachable {id : NodeId} {b : Bool} (h : Tidy w held)
    (hrun : w.isReachable host clock id = .ok (w', b)) : Tidy w' held := by
  obtain ⟨⟨t, hop, found⟩, -, hrun⟩ := bind_eq_ok.mp hrun
  cases hrun
  exact h.withRouting rfl

/-- It changes neither the queue nor the generator of traffic. -/
theorem isReachable_keeps {id : NodeId} {b : Bool}
    (hrun : w.isReachable host clock id = .ok (w', b)) :
    w'.q = w.q ∧ w'.traffic = w.traffic := by
  obtain ⟨⟨t, hop, found⟩, -, hrun⟩ := bind_eq_ok.mp hrun
  cases hrun
  exact ⟨rfl, rfl⟩

/-- A traffic packet that comes back is not for the one who sends such packets. -/
theorem quiet_of_traffic {r' : AwdsRouting} {q : BasePacket} (r : AwdsRouting)
    (t : TrafficPacketType) (dest : NodeId)
    (hc : c.buffer = (TrafficPacket.new host r t dest).2.buffer)
    (htype : w.traffic.type = match t with
      | .fromsrc => .src
      | .fromsink => .sink)
    (hsend : r'.sendUnicast host clock c = .ok (w.routing, .deliver q)) : Quiet w q := by
  obtain ⟨hplain, hnr, hmark⟩ := trafficPacket_spec host r t dest
  rw [← hc] at hnr hmark
  -- The packet comes back as it was sent, so its marks are those of the sender.
  have hagree := plain_returns (show PlainUnicast c from (congrFun hc 0).trans hplain) hsend
  have hqnr : q.buffer 22 = 96 := (hagree.buffer 22 (by decide)).trans hnr
  have hqmark : q.buffer 27 = t.code := (hagree.buffer 27 (by decide)).trans hmark
  refine quiet_of_type (u := .traffic) (congrArg UInt8.toNat hqnr) ?_
  unfold QuietFor
  rw [htype]
  -- The marks of the two kinds differ.
  have hne : ∀ t' : TrafficPacketType, t ≠ t' → TrafficPacket.hasType q t' = false := by
    intro t' ht
    unfold TrafficPacket.hasType
    rw [decide_eq_false_iff_not]
    show ¬q.buffer 27 = t'.code
    rw [hqmark]
    revert ht
    cases t <;> cases t' <;> decide
  cases t with
  | fromsrc => exact hne .fromsink (by decide)
  | fromsink => exact hne .fromsrc (by decide)

/-- `send` drops the packet that it has created. -/
theorem Tidy.sendNext (h : Tidy w held) (hfree : w.q.refcount p = 0)
    (hsrc : w.traffic.type = .src)
    (hrun : w.sendNext host clock (handle host clock response n) p = .ok w') :
    Tidy w' held := by
  unfold PacketWorld.sendNext at hrun
  -- The count has run out: nothing is sent.
  split at hrun
  · cases hrun
    exact h
  obtain ⟨⟨w1, reachable⟩, hreach, hrun⟩ := bind_eq_ok.mp hrun
  obtain ⟨hq, htraffic⟩ := isReachable_keeps hreach
  have h1 := h.isReachable hreach
  dsimp only at hrun
  -- The destination cannot be reached: nothing is sent.
  split at hrun
  · cases hrun
    exact h1
  obtain ⟨w2, hsend, hrun⟩ := bind_eq_ok.mp hrun
  cases hrun
  refine Tidy.unref (Tidy.sendUnicast ?_ (single_pos held p) ?_ hsend)
  · refine Tidy.newPacket (h1.congr rfl rfl rfl rfl) ?_
    show w1.q.refcount p = 0
    rw [hq]
    exact hfree
  · -- What comes back to the sender is for the other side of the traffic.
    intro r q hback
    refine quiet_of_traffic w1.routing .fromsrc w1.traffic.dest ?_ ?_ hback
    · rfl
    show w1.traffic.type = .src
    rw [htraffic, hsrc]

/-- Only a source sends. It is set up with the parameters of the command, which keeps its type, and
sends the next packet. -/
theorem Tidy.trafficSend {pCount pSize : Int} {d : NodeId} (h : Tidy w held)
    (hfree : w.q.refcount p = 0)
    (hrun : w.trafficSend host clock (handle host clock response n) p pCount pSize d = .ok w') :
    Tidy w' held := by
  unfold PacketWorld.trafficSend at hrun
  split at hrun
  · cases hrun
    exact h
  · rename_i hsink
    have hsetup : (w.traffic.setUp pCount pSize d).type = w.traffic.type := by
      unfold Traffic.setUp
      split <;> rfl
    refine Tidy.sendNext ?_ ?_ ?_ hrun
    · exact h.congr rfl rfl rfl rfl
    · exact hfree
    show (w.traffic.setUp pCount pSize d).type = .src
    rw [hsetup]
    cases htype : w.traffic.type with
    | src => rfl
    | sink => exact absurd htype hsink

/-- `send_reply` keeps the reference to the packet that it has created. -/
theorem Tidy.sendReply {dest : NodeId} (h : Tidy w held) (hfree : w.q.refcount p = 0)
    (hsink : w.traffic.type = .sink)
    (hrun : w.sendReply host clock (handle host clock response n) p dest = .ok w') :
    Tidy w' (held + Pi.single p 1) := by
  have hnew : Tidy ({ w with routing := (TrafficPacket.new host w.routing .fromsink dest).1
      }.newPacket p) (held + Pi.single p 1) :=
    Tidy.newPacket (h.congr rfl rfl rfl rfl) hfree
  refine hnew.sendUnicast (single_pos held p) (fun r q hback => ?_) hrun
  exact quiet_of_traffic w.routing .fromsink dest rfl hsink hback

end Handlers

end Awds.Proofs
