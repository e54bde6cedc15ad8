import Awds.Pinger
import Awds.Proofs.Routing.Flood
import Awds.Proofs.Topology.Forwarding

/-!
# `Awds.Proofs.Routing.PathTrace`: unicast packets with a trace

`recv_unicast` is meant to change the TTL and the next hop of a packet that it sends on and,
if the packet has the trace flag, to write the address of the station to the slot at the trace
pointer and to move the pointer behind it (`ChangesOnly`). `appendNode` compares the pointer
with the end of the packet only. A pointer below 25 makes it write over the header, which
`forwarded_changes_iff` shows to be the only way to go wrong.

The comparison with the end is `>=`, so the slot that ends with the packet is never used. A ping
that traces its path arrives with the first `room size` of the stations it has passed
(`Visited.traced`), and one more slot fits if 6 divides the bytes behind the header of the ping
(`slots`).

A station is visited each time its `recv_unicast` gets the packet, from `sendUnicast` too:
`Visited path host action` says that the last station, `host`, has come to `action`.
-/

set_option autoImplicit false

namespace Awds.Proofs

open Awds.Lib Awds.AwdsRouting

/-! ### What a station does to a packet -/

/-- The packet as `recv_unicast` leaves it in front of its route. -/
def passed (host : Host) (p : BasePacket) : BasePacket :=
  let p := UnicastPacket.decrTTL (p.setType .unicast)
  if SrcPacket.getTraceFlag p then TraceUcPacket.appendNode p host.myNodeId else p

/-- `appendNode` finds space for a node. -/
def HasSpace (p : BasePacket) : Prop :=
  TraceUcPacket.getTracePointer p + NodeId.size < p.size

/-- `recv_unicast` writes to the slot at the trace pointer. -/
def Appends (p : BasePacket) : Prop := SrcPacket.getTraceFlag p = true ∧ HasSpace p

/-- `q` is `p` but for the TTL, the next hop, and the trace of a packet that has one. The slot
lies between the end of the header and the end of the packet. -/
structure ChangesOnly (p q : BasePacket) : Prop where
  size : q.size = p.size
  bytes : ∀ i, q.buffer i ≠ p.buffer i →
    i = UnicastPacket.offsetTTL ∨
      (UnicastPacket.offsetNextHop ≤ i ∧ i < UnicastPacket.offsetNextHop + NodeId.size) ∨
      SrcPacket.getTraceFlag p = true ∧
        ((TraceUcPacket.getTracePointer p ≤ i ∧ i < TraceUcPacket.getTracePointer p + NodeId.size) ∨
          (TraceUcPacket.offsetTraceEnd ≤ i ∧ i < TraceUcPacket.traceUcPacketEnd))
  slot : TraceUcPacket.getTracePointer q ≠ TraceUcPacket.getTracePointer p →
    TraceUcPacket.traceUcPacketEnd ≤ TraceUcPacket.getTracePointer p ∧
      TraceUcPacket.getTracePointer p + NodeId.size ≤ p.size

section Step

variable {host : Host} {clock : Clock} {r r' : AwdsRouting} {p q : BasePacket}

/-- A packet that gets past the first line of `recv_packet` is from another station. -/
theorem recvPacket_some {t : PacketType} (h : r.recvPacket host p = some t) :
    p.getType = t ∧ SrcPacket.getSrc p ≠ host.myNodeId := by
  unfold AwdsRouting.recvPacket at h
  split at h
  · rename_i hpass
    exact ⟨Option.some.inj h, hpass.2⟩
  · cases h

/-- What is sent on is the packet with its next hop, and it goes to this station. -/
theorem routeUnicast_send (h : r.routeUnicast host clock p = .ok (r', .send q)) :
    ∃ hop, q = (UnicastPacket.setNextHop p hop).setDest hop := by
  obtain ⟨⟨t, hop, found⟩, -, h⟩ := bind_eq_ok.mp h
  dsimp only at h
  split at h
  · cases h
  · cases h
    exact ⟨hop, rfl⟩

/-- A packet that needs a route is not given to a handler here. -/
theorem routeUnicast_not_deliver : r.routeUnicast host clock p ≠ .ok (r', .deliver q) := by
  intro h
  obtain ⟨⟨t, hop, found⟩, -, h⟩ := bind_eq_ok.mp h
  dsimp only at h
  split at h
  · cases h
  · cases h

/-- `recv_unicast` in terms of `passed`. -/
theorem recvUnicast_passed (p : BasePacket) : r.recvUnicast host clock p =
    if UnicastPacket.getTTL (UnicastPacket.decrTTL (p.setType .unicast)) = 0 then .ok (r, .drop)
    else if UnicastPacket.getNextHop (UnicastPacket.decrTTL (p.setType .unicast)) ≠ host.myNodeId
      then .ok (r, .drop)
    else if UnicastPacket.getUcDest (passed host p) = host.myNodeId then
      .ok (r, .deliver (passed host p))
    else r.routeUnicast host clock (passed host p) := rfl

/-- What `recv_unicast` sends on. -/
theorem recvUnicast_send (h : r.recvUnicast host clock p = .ok (r', .send q)) :
    UnicastPacket.getTTL (UnicastPacket.decrTTL (p.setType .unicast)) ≠ 0 ∧
      ∃ hop, q = (UnicastPacket.setNextHop (passed host p) hop).setDest hop := by
  rw [recvUnicast_passed] at h
  split at h
  · cases h
  rename_i httl
  split at h
  · cases h
  split at h
  · cases h
  · exact ⟨httl, routeUnicast_send h⟩

/-- What `recv_unicast` gives to a handler. -/
theorem recvUnicast_deliver (h : r.recvUnicast host clock p = .ok (r', .deliver q)) :
    q = passed host p := by
  rw [recvUnicast_passed] at h
  split at h
  · cases h
  split at h
  · cases h
  split at h
  · cases h
    rfl
  · exact absurd h routeUnicast_not_deliver

/-- The packet is for this station as its next hop and its TTL survives the decrement. -/
structure ComesTo (host : Host) (p : BasePacket) : Prop where
  ttl : UnicastPacket.getTTL (UnicastPacket.decrTTL (p.setType .unicast)) ≠ 0
  nextHop : UnicastPacket.getNextHop (UnicastPacket.decrTTL (p.setType .unicast)) = host.myNodeId

instance (host : Host) (p : BasePacket) : Decidable (ComesTo host p) :=
  decidable_of_iff (_ ∧ _) ⟨fun h => ⟨h.1, h.2⟩, fun h => ⟨h.1, h.2⟩⟩

/-- A packet that has come to its destination goes to its handler, with the trace of this station.
-/
theorem recvUnicast_delivers (h : ComesTo host p)
    (hdest : UnicastPacket.getUcDest (passed host p) = host.myNodeId) :
    r.recvUnicast host clock p = .ok (r, .deliver (passed host p)) := by
  rw [recvUnicast_passed, if_neg h.ttl, if_neg (not_not.mpr h.nextHop), if_pos hdest]

/-- A packet for another station that has a route is sent on to the next hop. -/
theorem recvUnicast_sends {dest : NodeId} {nd : NDescr} (hclean : r.topology.dirty = false)
    (h : ComesTo host p) (hdest : UnicastPacket.getUcDest (passed host p) = dest)
    (hother : dest ≠ host.myNodeId) (hnd : r.topology.adjList[dest]? = some nd)
    (hhop : nd.nextHop ≠ host.myNodeId) : r.recvUnicast host clock p =
      .ok (r, .send
        ((UnicastPacket.setNextHop (passed host p) nd.nextHop).setDest nd.nextHop)) := by
  rw [recvUnicast_passed, if_neg h.ttl, if_neg (not_not.mpr h.nextHop), hdest, if_neg hother]
  unfold routeUnicast
  rw [hdest, getNextHop_of_clean hclean, except_bind_ok, hnd]
  dsimp only
  rw [if_neg (by simpa using hhop)]

/-- The trace flag is the first bit of the first byte. -/
theorem getTraceFlag_congr (h : q.buffer 0 = p.buffer 0) :
    SrcPacket.getTraceFlag q = SrcPacket.getTraceFlag p := by
  unfold SrcPacket.getTraceFlag SrcPacket.getControlBit
  rw [h]

/-- Setting the type of a packet keeps the trace flag, which is another bit of the same byte. -/
theorem getTraceFlag_setType (p : BasePacket) (t : PacketType) :
    SrcPacket.getTraceFlag (p.setType t) = SrcPacket.getTraceFlag p := by
  have hbyte : ∀ b : UInt8, ∀ t : PacketType,
      decide (((b &&& ~~~(3 : UInt8)) ||| t.code) &&& ((1 : UInt8) <<< 7) ≠ 0) =
        decide (b &&& ((1 : UInt8) <<< 7) ≠ 0) := by
    intro b t
    cases t <;> revert b <;> decide +kernel
  exact hbyte (p.buffer 0) t

/-- The trace pointer is in the bytes 23 and 24. -/
theorem getTracePointer_congr (h : ∀ i, 23 ≤ i → i < 25 → q.buffer i = p.buffer i) :
    TraceUcPacket.getTracePointer q = TraceUcPacket.getTracePointer p := by
  unfold TraceUcPacket.getTracePointer
  rw [Buffer.read_congr h]

/-- The trace pointer is a number of two bytes. -/
theorem getTracePointer_lt (p : BasePacket) : TraceUcPacket.getTracePointer p < 65536 := by
  have h := ofBigEndian_lt (p.buffer.read TraceUcPacket.offsetTraceEnd 2)
  rwa [Buffer.length_read] at h

/-- The trace pointer is written to two bytes, and the others stay. -/
theorem setTracePointer_buffer (p : BasePacket) (off : Nat) {i : Nat} (h : i < 23 ∨ 25 ≤ i) :
    (TraceUcPacket.setTracePointer p off).buffer i = p.buffer i := by
  unfold TraceUcPacket.setTracePointer
  refine Buffer.write_of_outside _ _ ?_
  rwa [length_toBigEndian]

/-- The trace pointer that is read back is the one that was written, modulo 2 ^ 16. -/
theorem getTracePointer_setTracePointer (p : BasePacket) (off : Nat) :
    TraceUcPacket.getTracePointer (TraceUcPacket.setTracePointer p off) = off % 65536 := by
  have hself := Buffer.read_write_self p.buffer TraceUcPacket.offsetTraceEnd (toBigEndian 2 off)
  rw [length_toBigEndian] at hself
  unfold TraceUcPacket.getTracePointer TraceUcPacket.setTracePointer
  rw [BasePacket.write_buffer, hself, ofBigEndian_toBigEndian]
  rfl

/-! #### `appendNode` -/

/-- A trace entry goes into the packet as it is. No packet grows on its way. -/
theorem appendNode_size (p : BasePacket) (id : NodeId) :
    (TraceUcPacket.appendNode p id).size = p.size := by
  unfold TraceUcPacket.appendNode
  dsimp only
  split
  · rfl
  · rfl

/-- Without space for a node the packet stays as it is. -/
theorem appendNode_full (id : NodeId) (h : ¬HasSpace p) : TraceUcPacket.appendNode p id = p := by
  unfold TraceUcPacket.appendNode
  dsimp only
  rw [if_pos (Nat.not_lt.mp h)]

/-- With space the node is written to the slot at the pointer, and the pointer moves on by one slot.
-/
theorem appendNode_space (id : NodeId) (h : HasSpace p) : TraceUcPacket.appendNode p id =
    TraceUcPacket.setTracePointer (p.write (TraceUcPacket.getTracePointer p) id.toArray)
      (TraceUcPacket.getTracePointer p + NodeId.size) := by
  unfold TraceUcPacket.appendNode
  dsimp only
  rw [if_neg (Nat.not_le.mpr h)]

/-- `appendNode` changes the slot and the trace pointer only. -/
theorem appendNode_buffer (p : BasePacket) (id : NodeId) {i : Nat}
    (hslot : i < TraceUcPacket.getTracePointer p ∨ TraceUcPacket.getTracePointer p + 6 ≤ i)
    (hptr : i < 23 ∨ 25 ≤ i) : (TraceUcPacket.appendNode p id).buffer i = p.buffer i := by
  by_cases hspace : HasSpace p
  · rw [appendNode_space id hspace]
    refine (setTracePointer_buffer _ _ hptr).trans (Buffer.write_of_outside _ _ ?_)
    rwa [NodeId.length_toArray]
  · rw [appendNode_full id hspace]

/-- A node that is appended moves the trace pointer. -/
theorem appendNode_pointer (id : NodeId) (h : HasSpace p) :
    TraceUcPacket.getTracePointer (TraceUcPacket.appendNode p id) =
      (TraceUcPacket.getTracePointer p + 6) % 65536 := by
  rw [appendNode_space id h, getTracePointer_setTracePointer]

/-! #### The packet that leaves -/

/-- The TTL is one byte, and the others stay. -/
theorem decrTTL_buffer (p : BasePacket) {i : Nat} (h : i ≠ UnicastPacket.offsetTTL) :
    (UnicastPacket.decrTTL p).buffer i = p.buffer i :=
  Buffer.write_of_outside _ _ (Nat.lt_or_gt_of_ne h)

/-- The next hop is six bytes, and the others stay. -/
theorem setNextHop_buffer (p : BasePacket) (hop : NodeId) {i : Nat} (h : i < 15 ∨ 21 ≤ i) :
    (UnicastPacket.setNextHop p hop).buffer i = p.buffer i := by
  refine Buffer.write_of_outside _ _ ?_
  rwa [NodeId.length_toArray]

/-- The TTL is not in the trace pointer. -/
theorem getTracePointer_decrTTL (p : BasePacket) :
    TraceUcPacket.getTracePointer (UnicastPacket.decrTTL p) = TraceUcPacket.getTracePointer p :=
  getTracePointer_congr fun i hi _ => decrTTL_buffer p (by
    show i ≠ 21
    omega)

/-- The TTL is not in the byte with the trace flag. -/
theorem getTraceFlag_decrTTL (p : BasePacket) :
    SrcPacket.getTraceFlag (UnicastPacket.decrTTL p) = SrcPacket.getTraceFlag p :=
  getTraceFlag_congr (decrTTL_buffer p (by decide))

/-- So the TTL does not matter for the space. -/
theorem hasSpace_decrTTL (p : BasePacket) : HasSpace (UnicastPacket.decrTTL p) ↔ HasSpace p := by
  unfold HasSpace
  rw [getTracePointer_decrTTL]
  exact Iff.rfl

/-- A packet without the flag loses one of its TTL, and that is all. -/
theorem passed_untraced (htype : p.getType = .unicast)
    (hflag : SrcPacket.getTraceFlag p = false) : passed host p = UnicastPacket.decrTTL p := by
  unfold passed
  rw [← htype, BasePacket.setType_getType]
  dsimp only
  rw [getTraceFlag_decrTTL, hflag, if_neg Bool.false_ne_true]

/-- A packet with the flag gets the station in its trace as well, if there is space. -/
theorem passed_traced (htype : p.getType = .unicast) (hflag : SrcPacket.getTraceFlag p = true) :
    passed host p = TraceUcPacket.appendNode (UnicastPacket.decrTTL p) host.myNodeId := by
  unfold passed
  rw [← htype, BasePacket.setType_getType]
  dsimp only
  rw [getTraceFlag_decrTTL, if_pos hflag]

/-- No packet changes its size. -/
theorem passed_size (host : Host) (p : BasePacket) : (passed host p).size = p.size := by
  unfold passed
  dsimp only
  split
  · exact appendNode_size _ _
  · rfl

/-- A packet to which nothing is appended loses one from its TTL. -/
theorem passed_of_not_appends (htype : p.getType = .unicast) (h : ¬Appends p) :
    passed host p = UnicastPacket.decrTTL p := by
  cases hflag : SrcPacket.getTraceFlag p with
  | false => exact passed_untraced htype hflag
  | true =>
    rw [passed_traced htype hflag]
    exact appendNode_full _ fun hspace => h ⟨hflag, (hasSpace_decrTTL p).mp hspace⟩

/-- The bytes outside the trace and the TTL stay. -/
theorem passed_buffer (htype : p.getType = .unicast) {i : Nat} (httl : i ≠ UnicastPacket.offsetTTL)
    (htrace : SrcPacket.getTraceFlag p = true →
      (i < TraceUcPacket.getTracePointer p ∨ TraceUcPacket.getTracePointer p + 6 ≤ i) ∧
        (i < 23 ∨ 25 ≤ i)) : (passed host p).buffer i = p.buffer i := by
  cases hflag : SrcPacket.getTraceFlag p with
  | false =>
    rw [passed_untraced htype hflag]
    exact decrTTL_buffer p httl
  | true =>
    obtain ⟨hslot, hptr⟩ := htrace hflag
    rw [passed_traced htype hflag, appendNode_buffer _ _ (by rwa [getTracePointer_decrTTL]) hptr]
    exact decrTTL_buffer p httl

/-- The trace pointer moves exactly if a node is appended. -/
theorem passed_pointer_ne (host : Host) (htype : p.getType = .unicast) :
    TraceUcPacket.getTracePointer (passed host p) ≠ TraceUcPacket.getTracePointer p ↔
      Appends p := by
  constructor
  · intro hne
    by_contra happ
    rw [passed_of_not_appends htype happ, getTracePointer_decrTTL] at hne
    exact hne rfl
  · rintro ⟨hflag, hspace⟩
    have hlt := getTracePointer_lt p
    rw [passed_traced htype hflag, appendNode_pointer _ ((hasSpace_decrTTL p).mpr hspace),
      getTracePointer_decrTTL]
    omega

/-- A station that sends a unicast packet on changes nothing but the TTL, the next hop and the
trace exactly if it appends no address in front of the end of the header. -/
theorem forwarded_changes_iff (htype : p.getType = .unicast)
    (h : r.recvUnicast host clock p = .ok (r', .send q)) :
    ChangesOnly p q ↔
      (Appends p → TraceUcPacket.traceUcPacketEnd ≤ TraceUcPacket.getTracePointer p) := by
  obtain ⟨-, hop, rfl⟩ := recvUnicast_send h
  -- the next hop ends in front of the trace pointer
  have hptr : TraceUcPacket.getTracePointer
      ((UnicastPacket.setNextHop (passed host p) hop).setDest hop) =
        TraceUcPacket.getTracePointer (passed host p) :=
    getTracePointer_congr fun i hi _ => setNextHop_buffer _ _ (by omega)
  constructor
  · intro hchanges happ
    have hne := (passed_pointer_ne host htype).mpr happ
    exact (hchanges.slot (by rwa [hptr])).1
  · intro hend
    refine ⟨passed_size host p, fun i hi => ?_, fun hne => ?_⟩
    · by_contra hkept
      simp only [not_or, not_and] at hkept
      obtain ⟨httl, hhop, htrace⟩ := hkept
      refine hi ((setNextHop_buffer _ _ ?_).trans (passed_buffer htype httl fun hflag => ?_))
      · have hrange : 15 ≤ i → ¬i < 21 := hhop
        omega
      · obtain ⟨hslot, hpointer⟩ := htrace hflag
        have hend : 23 ≤ i → ¬i < 25 := hpointer
        have hsize : NodeId.size = 6 := rfl
        omega
    · rw [hptr, passed_pointer_ne host htype] at hne
      exact ⟨hend hne, Nat.le_of_lt hne.2⟩

end Step

/-! ### The path of a ping -/

/-- The slots that fit between the header of a ping and its end. -/
def slots (size : Nat) : Nat := (size - Pinger.pingHeaderEnd) / NodeId.size

/-- The slots that `appendNode` fills in a ping: one byte stays free behind them. -/
def room (size : Nat) : Nat := (size - (Pinger.pingHeaderEnd + 1)) / NodeId.size

/-- A ping that traces its path has been visited by the stations `path`, and `recv_unicast` of
the last one, `host`, has come to `action`. The medium keeps the size of a packet. A reply goes
on with the packet of the request. -/
inductive Visited : List NodeId → Host → UnicastAction → Prop
  | request (host : Host) (clock : Clock) (r r' : AwdsRouting) (pinger : Pinger)
      (stamp : List UInt8) (action : UnicastAction) (trace : pinger.doTracePath = true)
      (run : (pinger.nextPing host r stamp).1.sendUnicast host clock
        (pinger.nextPing host r stamp).2 = .ok (r', action)) :
      Visited [host.myNodeId] host action
  | hop (path : List NodeId) (last host : Host) (clock : Clock) (r r' : AwdsRouting)
      (q p : BasePacket) (action : UnicastAction) (sent : Visited path last (.send q))
      (arrives : q.Arrives p) (size : p.size = q.size)
      (unicast : r.recvPacket host p = some .unicast)
      (run : r.recvUnicast host clock p = .ok (r', action)) :
      Visited (path ++ [host.myNodeId]) host action
  | reply (path : List NodeId) (host : Host) (clock : Clock) (r r' : AwdsRouting)
      (q : BasePacket) (action : UnicastAction) (arrived : Visited path host (.deliver q))
      (run : Pinger.pingRecv host clock r q = .ok (r', some action)) :
      Visited (path ++ [host.myNodeId]) host action

/-- The trace of the packet holds the first of the stations `path`, as many as have room. -/
structure Traced (path : List NodeId) (p : BasePacket) : Prop where
  type : p.getType = .unicast
  flag : SrcPacket.getTraceFlag p = true
  pointer : TraceUcPacket.getTracePointer p =
    Pinger.pingHeaderEnd + NodeId.size * (path.take (room p.size)).length
  header : Pinger.pingHeaderEnd ≤ p.size
  nodes : Pinger.tracedNodes p = path.take (room p.size)

section Path

variable {host : Host} {clock : Clock} {r r' : AwdsRouting} {p q : BasePacket}
  {path : List NodeId} {action : UnicastAction}

/-- The path that is printed has one entry for each slot below the trace pointer. -/
theorem tracedNodes_eq {n : Nat}
    (h : TraceUcPacket.getTracePointer p = Pinger.pingHeaderEnd + NodeId.size * n) :
    Pinger.tracedNodes p = (List.range n).map fun i =>
      .fromArray (p.buffer.read (Pinger.pingHeaderEnd + i * NodeId.size) NodeId.size) := by
  have hturns : (TraceUcPacket.getTracePointer p - Pinger.pingHeaderEnd + (NodeId.size - 1)) /
      NodeId.size = n := by
    rw [h]
    show (34 + 6 * n - 34 + 5) / 6 = n
    omega
  unfold Pinger.tracedNodes
  rw [hturns]

/-- Slots that are filled end in front of the end of the packet. -/
theorem room_fits {size n : Nat} (h : n ≤ room size) (hsize : Pinger.pingHeaderEnd ≤ size) :
    Pinger.pingHeaderEnd + NodeId.size * n ≤ size := by
  have hroom : n ≤ (size - 35) / 6 := h
  have hheader : 34 ≤ size := hsize
  show 34 + 6 * n ≤ size
  omega

/-- `appendNode` finds space exactly if a slot of `room` is left. -/
theorem Traced.hasSpace_iff (h : Traced path p) : HasSpace p ↔ path.length < room p.size := by
  have hptr : TraceUcPacket.getTracePointer p = 34 + 6 * (path.take (room p.size)).length :=
    h.pointer
  have hroom : room p.size = (p.size - 35) / 6 := rfl
  rw [List.length_take] at hptr
  show TraceUcPacket.getTracePointer p + 6 < p.size ↔ _
  omega

/-- The trace is in the pointer and the bytes behind the header of the ping. -/
theorem Traced.congr (h : Traced path p) (htype : q.getType = .unicast)
    (hflag : SrcPacket.getTraceFlag q = SrcPacket.getTraceFlag p) (hsize : q.size = p.size)
    (hptr : ∀ i, 23 ≤ i → i < 25 → q.buffer i = p.buffer i)
    (hslots : ∀ i, 34 ≤ i → i < p.size → q.buffer i = p.buffer i) : Traced path q := by
  have hpointer := (getTracePointer_congr hptr).trans h.pointer
  rw [← hsize] at hpointer
  refine ⟨htype, hflag.trans h.flag, hpointer, hsize ▸ h.header, ?_⟩
  rw [hsize, ← h.nodes, tracedNodes_eq hpointer, tracedNodes_eq h.pointer, hsize]
  refine List.map_congr_left fun i hi => congrArg _ (Buffer.read_congr fun k hk hk' => ?_)
  have hlast := List.mem_range.mp hi
  have hfits := room_fits (List.length_take_le (room p.size) path) h.header
  have hstart : 34 + i * 6 ≤ k := hk
  have hstop : k < 34 + i * 6 + 6 := hk'
  have hend : 34 + 6 * (path.take (room p.size)).length ≤ p.size := hfits
  exact hslots k (by omega) (by omega)

/-- A station that finds no space is not in the trace. -/
theorem Traced.passed_full (h : Traced path p) (hspace : ¬HasSpace p) :
    Traced (path ++ [host.myNodeId]) (passed host p) := by
  have hfull : room p.size ≤ path.length := by
    rw [h.hasSpace_iff] at hspace
    exact Nat.not_lt.mp hspace
  have htake : (path ++ [host.myNodeId]).take (room p.size) = path.take (room p.size) :=
    List.take_append_of_le_length hfull
  rw [passed_of_not_appends h.type fun happ => hspace happ.2]
  have hkeep : Traced path (UnicastPacket.decrTTL p) := by
    refine h.congr ?_ (getTraceFlag_decrTTL p) rfl (fun i hi _ => ?_) (fun i hi _ => ?_)
    · exact (getType_write p _ (by decide)).trans h.type
    · exact decrTTL_buffer p (by show i ≠ 21; omega)
    · exact decrTTL_buffer p (by show i ≠ 21; omega)
  refine ⟨hkeep.type, hkeep.flag, ?_, hkeep.header, ?_⟩
  · rw [show (UnicastPacket.decrTTL p).size = p.size from rfl, htake]
    exact hkeep.pointer
  · rw [show (UnicastPacket.decrTTL p).size = p.size from rfl, htake]
    exact hkeep.nodes

/-- A station that finds space is the last one in the trace. -/
theorem Traced.passed_space (h : Traced path p) (hspace : HasSpace p)
    (hbound : path.length ≤ 2 ∨ p.size ≤ BasePacket.maxSize) :
    Traced (path ++ [host.myNodeId]) (passed host p) := by
  have hlen : path.length < room p.size := h.hasSpace_iff.mp hspace
  have hpath : path.take (room p.size) = path := List.take_of_length_le (Nat.le_of_lt hlen)
  have hnext : (path ++ [host.myNodeId]).take (room p.size) = path ++ [host.myNodeId] :=
    List.take_of_length_le (by simpa using hlen)
  have hsize := passed_size host p
  have hptr : TraceUcPacket.getTracePointer p = 34 + 6 * path.length := by
    have hpointer := h.pointer
    rwa [hpath] at hpointer
  -- in front of the slot only the TTL and the trace pointer change
  have hlow : ∀ i, i < 34 + 6 * path.length → i ≠ 21 → i < 23 ∨ 25 ≤ i →
      (passed host p).buffer i = p.buffer i := by
    intro i hi httl hout
    exact passed_buffer h.type httl fun _ => ⟨.inl (by omega), hout⟩
  have hfirst : (passed host p).buffer 0 = p.buffer 0 := hlow 0 (by omega) (by decide) (by decide)
  have hpointer : TraceUcPacket.getTracePointer (passed host p) =
      Pinger.pingHeaderEnd + NodeId.size * (path.length + 1) := by
    rw [passed_traced h.type h.flag, appendNode_pointer _ ((hasSpace_decrTTL p).mpr hspace),
      getTracePointer_decrTTL, hptr]
    have hroom : path.length < (p.size - 35) / 6 := hlen
    show (34 + 6 * path.length + 6) % 65536 = 34 + 6 * (path.length + 1)
    -- the pointer does not wrap in a packet that a station can receive
    rcases hbound with hshort | hmax
    · omega
    · have hmax : p.size ≤ 4096 := hmax
      omega
  have hslot : (passed host p).buffer.read (34 + path.length * 6) 6 = host.myNodeId.toArray := by
    have hself := Buffer.read_write_self (UnicastPacket.decrTTL p).buffer
      (34 + path.length * 6) host.myNodeId.toArray
    rw [NodeId.length_toArray] at hself
    rw [passed_traced h.type h.flag, appendNode_space _ ((hasSpace_decrTTL p).mpr hspace),
      getTracePointer_decrTTL, hptr, Nat.mul_comm 6]
    refine (Buffer.read_write_disjoint _ _ (.inr ?_)).trans hself
    rw [length_toBigEndian]
    show 23 + 2 ≤ _
    omega
  refine ⟨?_, ?_, ?_, hsize ▸ h.header, ?_⟩
  · unfold BasePacket.getType
    rw [hfirst]
    exact h.type
  · exact (getTraceFlag_congr hfirst).trans h.flag
  · rw [hsize, hnext, List.length_append, hpointer]
    rfl
  · rw [hsize, hnext, tracedNodes_eq hpointer, List.range_succ, List.map_append,
      List.map_singleton]
    refine congrArg₂ (· ++ ·) ?_ ?_
    · have hnodes := h.nodes
      rw [hpath, tracedNodes_eq h.pointer, hpath] at hnodes
      refine Eq.trans (List.map_congr_left fun i hi => ?_) hnodes
      have hi := List.mem_range.mp hi
      refine congrArg _ (Buffer.read_congr fun k hk hk' => ?_)
      have hstart : 34 + i * 6 ≤ k := hk
      have hstop : k < 34 + i * 6 + 6 := hk'
      exact hlow k (by omega) (by omega) (by omega)
    · show [NodeId.fromArray ((passed host p).buffer.read (34 + path.length * 6) 6)] = _
      rw [hslot, NodeId.fromArray_toArray]

/-- The station that is visited next is the next one in the trace, if there is room. -/
theorem Traced.passed (host : Host) (h : Traced path p)
    (hbound : path.length ≤ 2 ∨ p.size ≤ BasePacket.maxSize) :
    Traced (path ++ [host.myNodeId]) (passed host p) := by
  by_cases hspace : HasSpace p
  · exact h.passed_space hspace hbound
  · exact h.passed_full hspace

/-- The mark of a request or a reply is in front of the trace. -/
theorem Traced.passed_direction (host : Host) (h : Traced path p) :
    (Proofs.passed host p).buffer Pinger.pingDirection = p.buffer Pinger.pingDirection := by
  have hptr : TraceUcPacket.getTracePointer p = 34 + 6 * (path.take (room p.size)).length :=
    h.pointer
  refine passed_buffer h.type (by decide) fun _ => ⟨.inl ?_, .inr (by decide)⟩
  show 25 < _
  omega

/-- `q` is what a station makes of a ping `p` that has visited `path`. -/
structure Continues (host : Host) (path : List NodeId) (p q : BasePacket) : Prop where
  size : q.size = p.size
  direction : q.buffer Pinger.pingDirection = p.buffer Pinger.pingDirection
  traced : Traced (path ++ [host.myNodeId]) q

/-- The packet behind `recv_unicast` has the station in its trace. -/
theorem Traced.recvUnicast (h : Traced path p)
    (hbound : path.length ≤ 2 ∨ p.size ≤ BasePacket.maxSize)
    (hrun : r.recvUnicast host clock p = .ok (r', action))
    (hq : action = .send q ∨ action = .deliver q) : Continues host path p q := by
  have hpassed := h.passed host hbound
  have hsize := passed_size host p
  have hdir := h.passed_direction host
  rcases hq with rfl | rfl
  · obtain ⟨-, hop, rfl⟩ := recvUnicast_send hrun
    have hkeep : ∀ i, i < 15 ∨ 21 ≤ i →
        ((UnicastPacket.setNextHop (Proofs.passed host p) hop).setDest hop).buffer i =
          (Proofs.passed host p).buffer i := fun i hi => setNextHop_buffer _ _ hi
    refine ⟨hsize, (hkeep _ (by decide)).trans hdir, hpassed.congr ?_ ?_ rfl ?_ ?_⟩
    · exact (getType_write _ _ (by decide)).trans hpassed.type
    · exact getTraceFlag_congr (hkeep 0 (by decide))
    · exact fun i hi _ => hkeep i (by omega)
    · exact fun i hi _ => hkeep i (by omega)
  · rw [recvUnicast_deliver hrun]
    exact ⟨hsize, hdir, hpassed⟩

/-- The same for a packet that the station sends itself. -/
theorem Traced.sendUnicast (h : Traced path p)
    (hbound : path.length ≤ 2 ∨ p.size ≤ BasePacket.maxSize)
    (hrun : r.sendUnicast host clock p = .ok (r', action))
    (hq : action = .send q ∨ action = .deliver q) : Continues host path p q := by
  have hkeep : ∀ i, i < 15 ∨ 22 ≤ i → (UnicastPacket.setNextHop
      (UnicastPacket.incTTL p) host.myNodeId).buffer i = p.buffer i := by
    intro i hi
    have hinc : (UnicastPacket.incTTL p).buffer i = p.buffer i :=
      Buffer.write_of_outside _ _ (Nat.lt_or_gt_of_ne (by show i ≠ 21; omega))
    rw [setNextHop_buffer _ _ (by omega), hinc]
  have hraised : Traced path
      (UnicastPacket.setNextHop (UnicastPacket.incTTL p) host.myNodeId) := by
    refine h.congr ?_ (getTraceFlag_congr (hkeep 0 (by decide))) rfl ?_ ?_
    · exact (getType_write _ _ (by decide)).trans ((getType_write p _ (by decide)).trans h.type)
    · exact fun i hi _ => hkeep i (by omega)
    · exact fun i hi _ => hkeep i (by omega)
  have htype : p.setType .unicast = p := by rw [← h.type, BasePacket.setType_getType]
  unfold AwdsRouting.sendUnicast at hrun
  rw [htype] at hrun
  have hcont := hraised.recvUnicast hbound hrun hq
  exact ⟨hcont.size, hcont.direction.trans (hkeep _ (by decide)), hcont.traced⟩

/-- The request of a ping that is to trace its path. -/
theorem nextPing_eq (host : Host) (r : AwdsRouting) {pinger : Pinger} (stamp : List UInt8)
    (h : pinger.doTracePath = true) : ∃ p : BasePacket, p.getType = .unicast ∧
      p.size = max pinger.pingSize Pinger.pingHeaderEnd ∧
      p.buffer Pinger.pingDirection = Pinger.request ∧
      (pinger.nextPing host r stamp).2 =
        SrcPacket.setTraceFlag (TraceUcPacket.setTracePointer p Pinger.pingHeaderEnd) true := by
  dsimp only [Pinger.nextPing, newUnicastPacket]
  rw [if_pos h]
  refine ⟨_, ?_, rfl, ?_, rfl⟩
  · rw [getType_write _ _ (by decide), getType_write _ _ (by decide)]
    refine (getType_write _ _ (by decide)).trans ((getType_write _ _ (by decide)).trans ?_)
    exact getType_setType _ _
  · rw [BasePacket.write_buffer, Buffer.write_of_lt _ _ (by decide), BasePacket.write_buffer]
    exact Buffer.write_singleton _ _ _

/-- The trace flag is in the first byte, and the others stay. -/
theorem setTraceFlag_buffer (p : BasePacket) (v : Bool) {i : Nat} (hi : 1 ≤ i) :
    (SrcPacket.setTraceFlag p v).buffer i = p.buffer i := by
  unfold SrcPacket.setTraceFlag SrcPacket.setControlBit
  rw [BasePacket.write_buffer, Buffer.write_of_ge _ _ hi]

/-- It starts with an empty trace. -/
theorem traced_nextPing (host : Host) (r : AwdsRouting) {pinger : Pinger} (stamp : List UInt8)
    (h : pinger.doTracePath = true) : Traced [] (pinger.nextPing host r stamp).2 ∧
      (pinger.nextPing host r stamp).2.buffer Pinger.pingDirection = Pinger.request := by
  obtain ⟨p, htype, hsize, hdir, hping⟩ := nextPing_eq host r stamp h
  rw [hping]
  -- the last thing that is written is the trace flag, into the first byte
  have hbit : ∀ b : UInt8,
      ((b &&& ~~~((1 : UInt8) <<< 7)) ||| (true.toUInt8 <<< 7)) &&& 3 = b &&& 3 ∧
        ((b &&& ~~~((1 : UInt8) <<< 7)) ||| (true.toUInt8 <<< 7)) &&& ((1 : UInt8) <<< 7) ≠ 0 := by
    decide +kernel
  have hpointer : TraceUcPacket.getTracePointer (SrcPacket.setTraceFlag
      (TraceUcPacket.setTracePointer p Pinger.pingHeaderEnd) true) =
        Pinger.pingHeaderEnd + NodeId.size * 0 := by
    rw [getTracePointer_congr fun i hi _ => setTraceFlag_buffer _ _ (by omega),
      getTracePointer_setTracePointer]
    rfl
  have hfirst := setTracePointer_buffer p Pinger.pingHeaderEnd (i := 0) (by decide)
  refine ⟨⟨?_, ?_, ?_, ?_, ?_⟩, ?_⟩
  · rw [← htype]
    refine getType_congr ?_
    rw [← hfirst]
    exact (hbit _).1
  · exact decide_eq_true (hbit _).2
  · rw [List.take_nil]
    exact hpointer
  · exact (Nat.le_max_right _ _).trans hsize.ge
  · rw [List.take_nil]
    exact tracedNodes_eq hpointer
  · rw [setTraceFlag_buffer _ _ (by decide), setTracePointer_buffer _ _ (by decide)]
    exact hdir

/-- The handler of pings sends a request back, with the trace it has. -/
theorem pingRecv_answers (h : Traced path p)
    (hrun : Pinger.pingRecv host clock r p = .ok (r', some action)) :
    p.buffer Pinger.pingDirection = Pinger.request ∧ ∃ reply : BasePacket, Traced path reply ∧
      reply.size = p.size ∧ reply.buffer Pinger.pingDirection = Pinger.reply ∧
      r.sendUnicast host clock reply = .ok (r', action) := by
  have htype : p.setType .unicast = p := by rw [← h.type, BasePacket.setType_getType]
  unfold Pinger.pingRecv at hrun
  rw [htype] at hrun
  dsimp only at hrun
  split at hrun
  · -- The answer is the packet with the direction and the two addresses exchanged.
    rename_i hrequest
    obtain ⟨⟨r1, a⟩, hsend, hrun⟩ := bind_eq_ok.mp hrun
    cases hrun
    -- All other bytes are those of the request.
    have hkeep : ∀ i, i < 1 ∨ 15 ≤ i → i ≠ 25 →
        ((SrcPacket.setSrc (UnicastPacket.setUcDest p (SrcPacket.getSrc p)) host.myNodeId).write
          Pinger.pingDirection [Pinger.reply]).buffer i = p.buffer i := by
      intro i hi hdir
      rw [BasePacket.write_buffer,
        Buffer.write_of_outside _ _ (Nat.lt_or_gt_of_ne (by show i ≠ 25; omega))]
      unfold SrcPacket.setSrc UnicastPacket.setUcDest
      rw [BasePacket.write_buffer, BasePacket.write_buffer]
      refine (Buffer.write_of_outside _ _ ?_).trans (Buffer.write_of_outside _ _ ?_)
      · rw [NodeId.length_toArray]
        show i < 1 ∨ 7 ≤ i
        omega
      · rw [NodeId.length_toArray]
        show i < 9 ∨ 15 ≤ i
        omega
    refine ⟨hrequest, _, h.congr ?_ (getTraceFlag_congr (hkeep 0 (by decide) (by decide))) rfl
      ?_ ?_, rfl, by rw [BasePacket.write_buffer, Buffer.write_singleton], hsend⟩
    · rw [getType_write _ _ (by decide)]
      exact (getType_write _ _ (by decide)).trans ((getType_write p _ (by decide)).trans h.type)
    · exact fun i hi hi' => hkeep i (by omega) (by omega)
    · exact fun i hi _ => hkeep i (by omega) (by omega)
  · -- Only a request is answered.
    cases hrun

/-- A ping that is larger than a packet can be does not leave its station, which visits it
twice at most, on the way there and on the way back. -/
def WithinBuffer (path : List NodeId) (p : BasePacket) : Prop :=
  p.size ≤ BasePacket.maxSize ∨
    (path.length = 1 ∧ p.buffer Pinger.pingDirection = Pinger.request) ∨
      (path.length = 2 ∧ p.buffer Pinger.pingDirection = Pinger.reply)

/-- The trace of every ping that a station sends on or gives to its handler. -/
theorem Visited.traced (h : Visited path host action) :
    ∀ q, action = .send q ∨ action = .deliver q → Traced path q ∧ WithinBuffer path q := by
  induction h with
  | request host clock r r' pinger stamp action trace run =>
    intro q hq
    obtain ⟨hping, hdir⟩ := traced_nextPing host r stamp trace
    have hcont := hping.sendUnicast (.inl (Nat.zero_le 2)) run hq
    exact ⟨hcont.traced, .inr (.inl ⟨rfl, hcont.direction.trans hdir⟩)⟩
  | hop path last host clock r r' q p action sent arrives size unicast run ih =>
    intro q' hq
    obtain ⟨hsent, -⟩ := ih q (.inl rfl)
    have hheader : 34 ≤ q.size := hsent.header
    have hfirst := arrives.bytes 0 (by omega)
    have harrived : Traced path p := by
      refine hsent.congr ?_ (getTraceFlag_congr hfirst) size
        (fun i _ hi => arrives.bytes i (by omega)) (fun i _ hi => arrives.bytes i hi)
      unfold BasePacket.getType
      rw [hfirst]
      exact hsent.type
    have hcont := harrived.recvUnicast (.inr arrives.fits) run hq
    exact ⟨hcont.traced, .inl (hcont.size.trans_le arrives.fits)⟩
  | reply path host clock r r' q action arrived run ih =>
    intro q' hq
    obtain ⟨htraced, hwithin⟩ := ih q (.inr rfl)
    obtain ⟨hrequest, reply, hreply, hsize, hdir, hsend⟩ := pingRecv_answers htraced run
    -- a reply is not answered again
    have hshort : q.size ≤ BasePacket.maxSize ∨ path.length = 1 := by
      rcases hwithin with hmax | ⟨hlen, -⟩ | ⟨-, hmark⟩
      · exact .inl hmax
      · exact .inr hlen
      · exact absurd (hrequest.symm.trans hmark) (by decide)
    have hcont := hreply.sendUnicast (by rw [hsize]; omega) hsend hq
    refine ⟨hcont.traced, ?_⟩
    rcases hshort with hmax | hlen
    · exact .inl (by rw [hcont.size, hsize]; exact hmax)
    · refine .inr (.inr ⟨?_, hcont.direction.trans hdir⟩)
      rw [List.length_append, hlen]
      rfl

/-- A ping arrives with the stations on its path, as many as have slots in it, exactly if the
path does not need the slot that ends with the packet. -/
theorem arrived_trace_iff (h : Visited path host (.deliver q)) :
    Pinger.tracedNodes q = path.take (slots q.size) ↔
      path.length < slots q.size ∨ slots q.size = 0 ∨
        ¬NodeId.size ∣ q.size - Pinger.pingHeaderEnd := by
  obtain ⟨htraced, -⟩ := h.traced q (.inr rfl)
  have hslots : slots q.size = (q.size - 34) / 6 := rfl
  have hroom : room q.size = (q.size - 35) / 6 := rfl
  have hdvd : NodeId.size ∣ q.size - Pinger.pingHeaderEnd ↔ (q.size - 34) % 6 = 0 :=
    Nat.dvd_iff_mod_eq_zero
  rw [htraced.nodes, hdvd]
  constructor
  · intro htake
    have hlen := congrArg List.length htake
    rw [List.length_take, List.length_take] at hlen
    omega
  · intro hfits
    by_cases hshort : path.length < slots q.size
    · rw [List.take_of_length_le (Nat.le_of_lt hshort), List.take_of_length_le (by omega)]
    · rw [show room q.size = slots q.size by omega]

end Path

/-- Take a unicast packet that a station sends on. It changes by nothing but the TTL, the next
hop and the trace if and only if nothing is appended in front of the end of the header. Take a
ping that arrives with a trace. It holds the stations on the path, as many as there are slots
in the packet, if and only if the path leaves the last slot free, there is none, or the last one
does not end with the packet. -/
theorem trace_kept_iff (host : Host) (q : BasePacket) :
    (∀ (clock : Clock) (r r' : AwdsRouting) (p : BasePacket),
      p.getType = .unicast → r.recvUnicast host clock p = .ok (r', .send q) →
        (ChangesOnly p q ↔
          (Appends p → TraceUcPacket.traceUcPacketEnd ≤ TraceUcPacket.getTracePointer p))) ∧
    ∀ path : List NodeId, Visited path host (.deliver q) →
      (Pinger.tracedNodes q = path.take (slots q.size) ↔
        path.length < slots q.size ∨ slots q.size = 0 ∨
          ¬NodeId.size ∣ q.size - Pinger.pingHeaderEnd) :=
  ⟨fun _ _ _ _ htype h => forwarded_changes_iff htype h,
    fun _ h => arrived_trace_iff h⟩

/-- The station 1 with a route to the station 2. -/
def wayRouting : AwdsRouting :=
  { pairRouting false with
    topology :=
      { adjList := (∅ : AdjList).insert 2 { distance := 1, nextHop := 2 }, dirty := false } }

/-- A packet of 60 bytes from the station 3 to the station 2, for the station 1 to send on, with
a trace at `ptr`. -/
def wayPacket (ptr : Nat) : BasePacket :=
  let p := SrcPacket.setSrc (BasePacket.new.setType .unicast) 3
  let p := UnicastPacket.setNextHop (UnicastPacket.setUcDest p 2) 1
  let p := SrcPacket.setTraceFlag (UnicastPacket.setTTL p 32) true
  { TraceUcPacket.setTracePointer p ptr with size := 60 }

/-- The packet that the station 1 sends. -/
def waySent (ptr : Nat) : BasePacket :=
  (UnicastPacket.setNextHop (passed (pairHosts false) (wayPacket ptr)) 2).setDest 2

/-- The station 1 sends the packet on to the station 2, whatever its trace pointer is. -/
theorem wayRouting_sends (ptr : Nat) (h : ComesTo (pairHosts false) (wayPacket ptr))
    (hdest : UnicastPacket.getUcDest (passed (pairHosts false) (wayPacket ptr)) = 2) :
    wayRouting.recvUnicast (pairHosts false) ⟨0, 0⟩ (wayPacket ptr) =
      .ok (wayRouting, .send (waySent ptr)) := by
  have hroute :
      wayRouting.topology.adjList[(2 : NodeId)]? = some { distance := 1, nextHop := 2 } := by
    decide +kernel
  rw [recvUnicast_sends rfl h hdest (by decide) hroute (by decide)]
  rfl

/-- The request of the station 1 to itself with a trace, in a packet of `size` bytes. -/
def selfPing (size : Nat) : AwdsRouting × BasePacket :=
  Pinger.nextPing (pairHosts false) (pairRouting false)
    { dest := 1, pingSize := size, doTracePath := true } (List.replicate 8 0)

/-- The packet that `recv_unicast` gets. -/
def selfPingSent (size : Nat) : BasePacket :=
  UnicastPacket.setNextHop (UnicastPacket.incTTL ((selfPing size).2.setType .unicast))
    (pairHosts false).myNodeId

/-- The packet that arrives. -/
def selfPinged (size : Nat) : BasePacket := passed (pairHosts false) (selfPingSent size)

/-- A ping to the own station is visited by it at once, since `send_unicast` calls `recv_unicast`.
-/
theorem visited_selfPing (size : Nat) (h : ComesTo (pairHosts false) (selfPingSent size))
    (hdest : UnicastPacket.getUcDest (selfPinged size) = 1) :
    Visited [1] (pairHosts false) (.deliver (selfPinged size)) := by
  have hrun : (selfPing size).1.sendUnicast (pairHosts false) ⟨0, 0⟩ (selfPing size).2 =
      .ok ((selfPing size).1, .deliver (selfPinged size)) := recvUnicast_delivers h hdest
  exact .request _ ⟨0, 0⟩ (pairRouting false) _ { dest := 1, pingSize := size, doTracePath := true }
    _ _ rfl hrun

/-- A trace behind the header and a ping with one byte behind its last slot. -/
theorem trace_kept :
    ChangesOnly (wayPacket 34) (waySent 34) ∧
    Visited [1] (pairHosts false) (.deliver (selfPinged 41)) ∧
      Pinger.tracedNodes (selfPinged 41) = [1] := by
  have hsent := wayRouting_sends 34 (by decide +kernel) (by decide +kernel)
  have hvisited := visited_selfPing 41 (by decide +kernel) (by decide +kernel)
  refine ⟨?_, hvisited, ?_⟩
  · exact ((trace_kept_iff _ _).1 _ _ _ _ (by decide +kernel) hsent).mpr fun _ => by decide +kernel
  · exact ((trace_kept_iff _ _).2 _ hvisited).mpr (.inr (.inr (by decide +kernel)))

/-- A trace pointer of 1: the station writes its address over the source. A ping that ends
with its only slot arrives with an empty trace. -/
theorem trace_not_kept :
    (wayRouting.recvUnicast (pairHosts false) ⟨0, 0⟩ (wayPacket 1) =
        .ok (wayRouting, .send (waySent 1)) ∧
      SrcPacket.getSrc (wayPacket 1) = 3 ∧ SrcPacket.getSrc (waySent 1) = 1 ∧
        ¬ChangesOnly (wayPacket 1) (waySent 1)) ∧
    Visited [1] (pairHosts false) (.deliver (selfPinged 40)) ∧ slots (selfPinged 40).size = 1 ∧
      Pinger.tracedNodes (selfPinged 40) = [] := by
  have hsent := wayRouting_sends 1 (by decide +kernel) (by decide +kernel)
  have happ : SrcPacket.getTraceFlag (wayPacket 1) = true ∧
      TraceUcPacket.getTracePointer (wayPacket 1) + NodeId.size < (wayPacket 1).size := by
    decide +kernel
  refine ⟨⟨hsent, by decide +kernel, by decide +kernel, fun hchanges => ?_⟩,
    visited_selfPing 40 (by decide +kernel) (by decide +kernel),
    by decide +kernel, by decide +kernel⟩
  exact absurd ((forwarded_changes_iff (by decide +kernel) hsent).mp hchanges happ)
    (by decide +kernel)

end Awds.Proofs
