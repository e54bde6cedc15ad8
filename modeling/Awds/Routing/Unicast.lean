import Awds.Routing.Operations

/-!
# `Awds.Routing.Unicast`: unicast packets

The functions of `AwdsRouting.cc` that create, receive and pass on unicast packets, and the
unicast side of `TapInterface.cc`.

`recvUnicast` says what becomes of a packet: it is dropped, it is given to the handler that
is registered for its type, or it is sent to the next hop. The handler works on the packet
as `recvUnicast` has left it. `TapInterface.recvUnicast` is the handler of frames.
-/

set_option autoImplicit false

namespace Awds

open Std Awds.Lib

/-- What becomes of a unicast packet: it is dropped, given to its handler or sent on. -/
inductive UnicastAction where
  | drop
  | deliver (p : BasePacket)
  | send (p : BasePacket)

namespace AwdsRouting

/-- `newUnicastPacket`. -/
def newUnicastPacket (host : Host) (r : AwdsRouting) (type : Nat) :
    AwdsRouting × BasePacket :=
  let p := BasePacket.new.setType .unicast
  let p := SrcPacket.setTraceFlag p false
  let p := SrcPacket.setSrc p host.myNodeId
  let p := UnicastPacket.setNextHop p host.myNodeId
  let p := UnicastPacket.setTTL p 32
  let p := SrcPacket.setSeq p r.unicastSeq.toNat
  ({ r with unicastSeq := r.unicastSeq + 1 }, UnicastPacket.setUcPacketType p type)

/-- The last part of `recv_unicast`: the route to the destination. -/
def routeUnicast (host : Host) (clock : Clock) (r : AwdsRouting) (p : BasePacket) :
    Result (AwdsRouting × UnicastAction) := do
  let (t, nextHop, found) ← r.topology.getNextHop host.toStation clock.lastEventTime
    (UnicastPacket.getUcDest p)
  let r := { r with topology := t }
  if !found then .ok (r, .drop)
  else .ok (r, .send ((UnicastPacket.setNextHop p nextHop).setDest nextHop))

/-- `recv_unicast`. -/
def recvUnicast (host : Host) (clock : Clock) (r : AwdsRouting) (p : BasePacket) :
    Result (AwdsRouting × UnicastAction) :=
  let p := UnicastPacket.decrTTL (p.setType .unicast)
  if UnicastPacket.getTTL p = 0 then .ok (r, .drop)
  else if UnicastPacket.getNextHop p ≠ host.myNodeId then .ok (r, .drop)
  else
    let p := if SrcPacket.getTraceFlag p then TraceUcPacket.appendNode p host.myNodeId else p
    if UnicastPacket.getUcDest p = host.myNodeId then .ok (r, .deliver p)
    else r.routeUnicast host clock p

/-- `sendUnicast`. The TTL is increased by one because `recvUnicast` decreases it. -/
def sendUnicast (host : Host) (clock : Clock) (r : AwdsRouting) (p : BasePacket) :
    Result (AwdsRouting × UnicastAction) :=
  let p := UnicastPacket.incTTL (p.setType .unicast)
  r.recvUnicast host clock (UnicastPacket.setNextHop p host.myNodeId)

/-- `sendUnicastVia`, with the packet that is sent, if any. -/
def sendUnicastVia (host : Host) (p : BasePacket) (nextHop : NodeId) : Option BasePacket :=
  let p := p.setType .unicast
  if UnicastPacket.getTTL p = 0 then none
  else
    let p := if SrcPacket.getTraceFlag p then TraceUcPacket.appendNode p host.myNodeId else p
    some ((UnicastPacket.setNextHop p nextHop).setDest nextHop)

/-- The part of the header of a unicast packet that is authenticated. -/
def unicastExtraSign : List MemoryBlock :=
  [⟨0, 3 + 2 * NodeId.size⟩, ⟨UnicastPacket.offsetUcType, 1⟩]

/-- The unencrypted packet in the unicast branch of `TapInterface::tap_recv`. -/
def plainFrame (host : Host) (r : AwdsRouting) (frame : List UInt8) (destNode : NodeId) :
    AwdsRouting × BasePacket :=
  let (r, p) := r.newUnicastPacket host TapInterface.protoNr
  let p := UnicastPacket.setUcDest (p.setType .unicast) destNode
  (r, { p.write UnicastPacket.unicastPacketEnd frame with
    size := UnicastPacket.unicastPacketEnd + frame.length })

/-- The unicast branch of `TapInterface::tap_recv` in front of `sendUnicast`, on the frame
read from the device. -/
def unicastFrame (host : Host) (r : AwdsRouting) (frame : List UInt8) (destNode : NodeId) :
    Result (AwdsRouting × BasePacket) :=
  let (r, p) := r.plainFrame host frame destNode
  r.encryptFrame host p UnicastPacket.unicastPacketEnd frame.length unicastExtraSign

/-- The unicast branch of `TapInterface::tap_recv`. -/
def tapRecvUnicast (host : Host) (clock : Clock) (r : AwdsRouting) (frame : List UInt8)
    (destNode : NodeId) : Result (AwdsRouting × UnicastAction) := do
  let (r, p) ← r.unicastFrame host frame destNode
  r.sendUnicast host clock p

end AwdsRouting

/-- `TapInterface::recv_unicast`. The packet is decrypted in place. -/
def TapInterface.recvUnicast (host : Host) (clock : Clock) (r : AwdsRouting)
    (p : BasePacket) : Result (AwdsRouting × BasePacket) :=
  match r.cryptoUnit with
  | none => .ok (r.writeFrame clock p UnicastPacket.unicastPacketEnd, p)
  | some cu => do
    let len ← p.sizeMinus (cryptoLen + UnicastPacket.unicastPacketEnd)
    let (cu, buf, ok) ← cu.decryptDupDetect host.ccm (SrcPacket.getSrc p) p.buffer
      UnicastPacket.unicastPacketEnd len AwdsRouting.unicastExtraSign
    let r := { r with cryptoUnit := some cu }
    let p := { p with buffer := buf }
    if !ok then .ok (r, p)
    else
      let p := { p with size := p.size - cryptoLen }
      .ok (r.writeFrame clock p UnicastPacket.unicastPacketEnd, p)

/-- What `tap_recv` does with a frame: the route of a broadcast packet, or that of a unicast
packet to the station behind the address of the frame. -/
def TapInterface.tapRecv (host : Host) (clock : Clock) (r : AwdsRouting)
    (frame : List UInt8) : Result (AwdsRouting × (Option BasePacket ⊕ UnicastAction)) :=
  match r.tap.getNodeForMacAddress (frame.take NodeId.size) clock.lastEventTime with
  | none => do
    let (r, sent) ← r.tapRecvBroadcast host clock frame
    .ok (r, .inl sent)
  | some destNode => do
    let (r, action) ← r.tapRecvUnicast host clock frame destNode
    .ok (r, .inr action)

end Awds
