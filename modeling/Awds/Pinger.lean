import Awds.Routing.Unicast

/-!
# `Awds.Pinger`: the shell command `ping`

`nextPing` builds the request that `next_ping` passes to `sendUnicast`, and `pingRecv` is the
handler of pings: it sends a request back as a reply, and it reports a reply. `tracedNodes` is
the path that it prints.

The time stamp is a parameter, the eight bytes that `Duration::toArray` writes. The statistics
of a reply, which go to the shell only, are left out.
-/

set_option autoImplicit false

namespace Awds

open Awds.Lib

namespace Pinger

/-- `PACKET_TYPE_UC_PING`. -/
abbrev packetTypeUcPing : Nat := 42

abbrev pingTraceNum : Nat := UnicastPacket.unicastPacketEnd
abbrev pingDirection : Nat := pingTraceNum + 2
abbrev pingTimeStamp : Nat := pingDirection + 1
abbrev pingHeaderEnd : Nat := pingTimeStamp + 8

/-- The marks of a request, `'i'`, and of a reply, `'o'`. -/
abbrev request : UInt8 := 0x69
abbrev reply : UInt8 := 0x6f

end Pinger

/-- `Pinger`, with the settings of `parse_opts`. -/
structure Pinger where
  dest : NodeId
  ttl : Nat := 64
  pingSize : Nat := 200
  doTracePath : Bool := false

namespace Pinger

/-- The packet that `next_ping` passes to `sendUnicast`. -/
def nextPing (host : Host) (r : AwdsRouting) (pinger : Pinger) (stamp : List UInt8) :
    AwdsRouting × BasePacket :=
  let (r, p) := r.newUnicastPacket host packetTypeUcPing
  let p := (p.setDest pinger.dest).setType .unicast
  let p := UnicastPacket.setTTL (UnicastPacket.setUcDest p pinger.dest) pinger.ttl
  let p := { p with size := max pinger.pingSize pingHeaderEnd }
  let p := (p.write pingDirection [request]).write pingTimeStamp stamp
  if pinger.doTracePath then
    (r, SrcPacket.setTraceFlag (TraceUcPacket.setTracePointer p pingHeaderEnd) true)
  else (r, p)

/-- `ping_recv`, with what becomes of the reply to a request. -/
def pingRecv (host : Host) (clock : Clock) (r : AwdsRouting) (p : BasePacket) :
    Result (AwdsRouting × Option UnicastAction) :=
  let p := p.setType .unicast
  if p.buffer pingDirection = request then do
    let p := UnicastPacket.setUcDest p (SrcPacket.getSrc p)
    let p := (SrcPacket.setSrc p host.myNodeId).write pingDirection [reply]
    let (r, action) ← r.sendUnicast host clock p
    .ok (r, some action)
  else .ok (r, none)

/-- The path that `ping_recv` prints: the loop over the entries below the trace pointer. -/
def tracedNodes (p : BasePacket) : List NodeId :=
  let turns := (TraceUcPacket.getTracePointer p - pingHeaderEnd + (NodeId.size - 1)) / NodeId.size
  (List.range turns).map fun i =>
    .fromArray (p.buffer.read (pingHeaderEnd + i * NodeId.size) NodeId.size)

end Pinger

end Awds
