import Awds.CryptoTrace
import Awds.PacketRefs
import Awds.Routing.Beacons

/-!
# `Awds.Producers`: the packets that a station makes

A `Producer` is what a station makes a packet from, and `Producer.run` makes it, with the writes of
a signature or an encryption as events. The result is the packet that `base->send` gets, if there
is one. The functions up to `sendBroadcast`, `sendUnicast` and `sendUnicastVia` are those of the
other modules, with the traced crypto unit.

The size of a ping, of a metric packet and of a traffic packet is a number that the user gives.
`parseArgs` reads the arguments of `ping`. What is left by `strtod` is a parameter, and so are the
sizes of the native values in a metric packet.
-/

set_option autoImplicit false

namespace Awds

open Std Awds.Lib

/-- A number as a `size_t`. -/
def sizeT (n : Int) : Nat := (n % 2 ^ 64).toNat

/-! ### Packets with a signature and frames -/

namespace AwdsRouting

/-- The signature of a beacon. -/
def signBeaconTraced (host : Host) (r : AwdsRouting) (p : BasePacket) :
    Written (AwdsRouting × BasePacket) :=
  match r.cryptoUnit with
  | none => pure (r, p)
  | some cu => do
    let (cu, buf) ← cu.signTraced host.ccm p.buffer p.size []
    pure ({ r with cryptoUnit := some cu },
      { p with buffer := buf, size := p.size + cryptoLen })

/-- The signature of a topo packet. -/
def signTopoTraced (host : Host) (r : AwdsRouting) (p : BasePacket) :
    Written (AwdsRouting × BasePacket) :=
  match r.cryptoUnit with
  | none => pure (r, p)
  | some cu => do
    let (cu, buf) ← cu.signTraced host.ccm p.buffer p.size noSign
    pure ({ r with cryptoUnit := some cu },
      { p with buffer := buf, size := p.size + cryptoLen })

/-- The encryption of a frame. -/
def encryptFrameTraced (host : Host) (r : AwdsRouting) (p : BasePacket) (off len : Nat)
    (sg : List MemoryBlock) : Written (AwdsRouting × BasePacket) :=
  match r.cryptoUnit with
  | none => pure (r, p)
  | some cu => do
    let (cu, buf) ← cu.encryptTraced host.ccm p.buffer off len sg
    pure ({ r with cryptoUnit := some cu },
      { p with buffer := buf, size := p.size + cryptoLen })

/-- The packet that is sent, if it is. -/
def sent : UnicastAction → Option BasePacket
  | .send p => some p
  | _ => none

/-- `sendUnicast`, with the packet that is sent. -/
def sendAway (host : Host) (clock : Clock) (r : AwdsRouting) (p : BasePacket) :
    Result (Option BasePacket) := do
  let (_, action) ← r.sendUnicast host clock p
  .ok (sent action)

/-- `send_topo`. -/
def sendTopoTraced (host : Host) (clock : Clock) (r : AwdsRouting) :
    Written (Option BasePacket) := do
  let (r, p) ← .lift (r.unsignedTopo host)
  let (r, p) ← r.signTopoTraced host p
  let (_, sent) ← .lift (r.sendBroadcast host clock p)
  pure sent

/-- The broadcast branch of `TapInterface::tap_recv`. -/
def tapRecvBroadcastTraced (host : Host) (clock : Clock) (r : AwdsRouting)
    (frame : List UInt8) : Written (Option BasePacket) := do
  let (r, p) := r.newFloodPacket host TapInterface.protoNr
  let p := { p.write Flood.floodHeaderEnd frame with
    size := Flood.floodHeaderEnd + frame.length }
  let (r, p) ← r.encryptFrameTraced host p Flood.floodHeaderEnd frame.length extraSign
  let (_, sent) ← .lift (r.sendBroadcast host clock p)
  pure sent

/-- The unicast branch of `TapInterface::tap_recv`. -/
def tapRecvUnicastFrame (host : Host) (clock : Clock) (r : AwdsRouting) (frame : List UInt8)
    (destNode : NodeId) : Written (Option BasePacket) := do
  let (r, p) := r.plainFrame host frame destNode
  let (r, p) ← r.encryptFrameTraced host p UnicastPacket.unicastPacketEnd frame.length
    unicastExtraSign
  .lift (r.sendAway host clock p)

end AwdsRouting

/-- The bytes of the buffer that `tap_recv` reads a frame into. -/
abbrev TapInterface.frameBufferSize : Nat := 3000

/-- `TapInterface::tap_recv`. A frame is cut to the buffer that it is read into. -/
def TapInterface.tapRecvTraced (host : Host) (clock : Clock) (r : AwdsRouting)
    (frame : List UInt8) : Written (Option BasePacket) :=
  let frame := frame.take frameBufferSize
  match r.tap.getNodeForMacAddress (frame.take NodeId.size) clock.lastEventTime with
  | none => r.tapRecvBroadcastTraced host clock frame
  | some destNode => r.tapRecvUnicastFrame host clock frame destNode

/-! ### The arguments of `ping` -/

namespace Pinger

/-- The loop of `parse_opts`, with the name of the destination. `strtodEnd` says what `strtod`
leaves, if there is a number. -/
def parseArgs (strtodEnd : List UInt8 → Option (List UInt8)) :
    List (List UInt8) → Pinger → Option (List UInt8) → Option (Pinger × Option (List UInt8))
  | [], pinger, destName => some (pinger, destName)
  | arg :: args, pinger, destName =>
    if arg = cStr "-p" then parseArgs strtodEnd args { pinger with doTracePath := true } destName
    else if arg = cStr "-s" then
      match args with
      | [] => none
      | v :: args => match strtol v with
        -- a number of any size is taken
        | some (n, []) => parseArgs strtodEnd args { pinger with pingSize := sizeT n } destName
        | _ => none
    else if arg = cStr "-i" then
      match args with
      | [] => none
      | v :: args => match strtodEnd v with
        | some [] => parseArgs strtodEnd args pinger destName
        | _ => none
    else if arg = cStr "-t" then
      match args with
      | [] => none
      | v :: args => match strtol v with
        | some (n, []) =>
          parseArgs strtodEnd args { pinger with ttl := (n % 2 ^ 32).toNat } destName
        | _ => none
    else
      -- must be the destination name
      match destName with
      | some _ => none
      | none => parseArgs strtodEnd args pinger (some arg)

/-- `parse_opts`, on the arguments behind the name of the command. -/
def parseOpts (strtodEnd : List UInt8 → Option (List UInt8)) (adj : AdjList)
    (args : List (List UInt8)) : Option Pinger :=
  match parseArgs strtodEnd args { dest := 0 } none with
  | some (pinger, some destName) =>
    (adj.getNodeByName destName).map fun dest => { pinger with dest := dest }
  | _ => none

end Pinger

/-! ### Metric packets -/

/-- The sizes of the native values in a metric packet. -/
structure NativeSizes where
  nodeId : Nat
  absTime : Nat
  duration : Nat

/-- The end of the header: behind the type there are an identifier, two times and a duration. -/
def UCMetricPacket.metricHeaderEnd (sizes : NativeSizes) : Nat :=
  offsetType + 4 + sizes.nodeId + 2 * sizes.absTime + sizes.duration

/-- A packet of a metric. The configured `packetSize` is an `unsigned int` in `RTTMetric` and
`TTMetric` and an `int` in `PktPair`, which sends two packets. A response has no size. -/
inductive Probe where
  | rtt (packetSize : UInt32)
  | tt (packetSize : UInt32)
  | pktPair (second : Bool) (packetSize : Int32)
  | response

namespace Probe

/-- The type of the packet. -/
def type : Probe → UCMetricType
  | rtt _ | tt _ => .req
  | pktPair second _ => if second then .second else .first
  | response => .resp

/-- The configured size. -/
def packetSize : Probe → Int
  | rtt packetSize | tt packetSize => packetSize.toNat
  | pktPair _ packetSize => packetSize.toInt
  | response => 0

end Probe

/-- `UCastMetric::sendvia` with a size, on a packet that ends with its header. -/
def UCastMetric.sendProbe (host : Host) (sizes : NativeSizes) (r : AwdsRouting) (probe : Probe)
    (dest : NodeId) : Option BasePacket :=
  let (_, p) := UCMetricPacket.new host r probe.type
  let p := { p with size := max (UCMetricPacket.metricHeaderEnd sizes) (sizeT probe.packetSize) }
  UCastMetric.sendvia host p dest

/-! ### The traffic generator -/

/-- `Traffic::send`. -/
def Traffic.send (host : Host) (clock : Clock) (r : AwdsRouting) (t : Traffic)
    (pCount pSize : Int) (d : NodeId) : Result (Option BasePacket) :=
  if t.type = .sink then .ok none
  else
    let t := t.setUp pCount pSize d
    if t.count > t.packetCount then .ok none
    else do
      let (top, _, found) ← r.topology.getNextHop host.toStation clock.lastEventTime t.dest
      let r := { r with topology := top }
      if !found then .ok none
      else
        let (r, p) := TrafficPacket.new host r .fromsrc t.dest
        r.sendAway host clock { p with size := sizeT t.packetSize }

/-- `Traffic::send_reply`. -/
def Traffic.sendReply (host : Host) (clock : Clock) (r : AwdsRouting) (dest : NodeId) :
    Result (Option BasePacket) :=
  let (r, p) := TrafficPacket.new host r .fromsink dest
  r.sendAway host clock p

/-! ### Producers -/

/-- The command `topolock`. -/
def topoLockPacket (host : Host) (clock : Clock) (r : AwdsRouting) (argv : List String) :
    Result (Option BasePacket) :=
  let (r, p) := r.newFloodPacket host PacketWorld.packetTypeBcTopoLock
  match PacketWorld.topoLockCmd argv with
  | none => .ok none
  | some cmd => do
    let p := { p.write Flood.floodHeaderEnd [cmd] with size := Flood.floodHeaderEnd + 1 }
    let (_, sent) ← r.sendBroadcast host clock p
    .ok sent

/-- What a station makes a packet from: a beacon or a topo packet from its own state, a frame of
the device, the arguments of `topolock`, a ping from the arguments of `ping` and the topology at
that time, a packet of a metric, a packet of `Traffic::send` from its settings and its arguments,
and a reply of `Traffic`. -/
inductive Producer where
  | beacon
  | topo
  | frame (bytes : List UInt8)
  | topoLock (argv : List String)
  | ping (adj : AdjList) (args : List (List UInt8)) (stamp : List UInt8)
  | metric (probe : Probe) (dest : NodeId)
  | traffic (t : Traffic) (pCount pSize : Int) (d : NodeId)
  | trafficReply (dest : NodeId)

/-- The packet that `base->send` gets. -/
def Producer.run (host : Host) (clock : Clock) (sizes : NativeSizes)
    (strtodEnd : List UInt8 → Option (List UInt8)) (b : BeaconRouting) :
    Producer → Written (Option BasePacket)
  | .beacon => do
    let (b, p) ← .lift (b.unsignedBeacon host)
    let (_, p) ← b.toAwdsRouting.signBeaconTraced host p
    pure (some p)
  | .topo => b.toAwdsRouting.sendTopoTraced host clock
  | .frame bytes => TapInterface.tapRecvTraced host clock b.toAwdsRouting bytes
  | .topoLock argv => .lift (topoLockPacket host clock b.toAwdsRouting argv)
  | .ping adj args stamp =>
    match Pinger.parseOpts strtodEnd adj args with
    | none => pure none
    | some pinger =>
      let (r, p) := Pinger.nextPing host b.toAwdsRouting pinger stamp
      .lift (r.sendAway host clock p)
  | .metric probe dest => pure (UCastMetric.sendProbe host sizes b.toAwdsRouting probe dest)
  | .traffic t pCount pSize d => .lift (t.send host clock b.toAwdsRouting pCount pSize d)
  | .trafficReply dest => .lift (Traffic.sendReply host clock b.toAwdsRouting dest)

end Awds
