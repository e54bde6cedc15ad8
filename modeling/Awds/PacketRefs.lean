import Awds.Metrics
import Awds.Routing.Flow
import Awds.Routing.Neighbors
import Awds.SendQueue

/-!
# `Awds.PacketRefs`: who takes and drops references to packets

A `PacketWorld` is a station with the reference counters of its packets. `q` is the send queue,
which has the counters, and `lastBeacons` holds the pointers of the table of neighbours, in the
order of `routing.neighbors`. The functions here are those of the source that create a packet,
take a reference to it or drop one. What they do to the data of the routing and of the packets
are the functions of the other modules: `recvPacket` calls `recvFlood` and sends the packet if
`recvFlood` does.

A counter that is changed in a packet that is not allocated is in memory that may belong to
anything. The daemon goes on, and `misused` says that this has happened.

A packet that a station sends to itself is delivered within the call that sends it. The handlers
take the function `deliver` for such a packet, and `handle` is the handlers up to a number of
calls within each other.

The flow tables have no receivers, since no module of the repository registers one. The memory
of the packets that an event creates is a part of the event: `first` and `second`.
-/

set_option autoImplicit false

namespace Awds

open Std Awds.Lib

/-- The handlers of unicast packets: `TapInterface::recv_unicast`, `Pinger::ping_recv`,
`ExtMetric::recv_packet` and `Traffic::recv_packet`. -/
inductive UnicastHandler where
  | tap
  | ping
  | metric
  | traffic
  deriving DecidableEq, Repr

/-- The number that a handler is registered for. -/
def UnicastHandler.protocol : UnicastHandler → Nat
  | tap => TapInterface.protoNr
  | ping => Pinger.packetTypeUcPing
  | metric => packetTypeUcMetric
  | traffic => packetTypeTraffic

/-- A station with the counters of its packets. `loaded` says which modules are loaded. -/
structure PacketWorld where
  q : SendQueue := {}
  misused : Bool := false
  routing : AwdsRouting
  lastBeacons : List PacketPtr := []
  flows : FlowTables Empty := {}
  loaded : UnicastHandler → Bool
  metric : UCastMetric
  traffic : Traffic

namespace PacketWorld

/-! ### References -/

/-- The state behind a call of the queue or of a counter. -/
def withQueue (w : PacketWorld) : Result SendQueue → PacketWorld
  | .ok q => { w with q := q }
  | .error _ => { w with misused := true }

/-- `BasePacket::ref`. -/
def ref (w : PacketWorld) (p : PacketPtr) : PacketWorld := w.withQueue (w.q.ref p)

/-- `BasePacket::unref`. -/
def unref (w : PacketWorld) (p : PacketPtr) : PacketWorld := w.withQueue (w.q.unref p)

/-- `new BasePacket()` in the memory `p`. -/
def newPacket (w : PacketWorld) (p : PacketPtr) : PacketWorld :=
  { w with q := { w.q with refcount := Function.update w.q.refcount p 1 } }

/-- `base->send`. -/
def send (w : PacketWorld) (p : PacketPtr) (highPrio : Bool) : PacketWorld :=
  w.withQueue ((w.q.enqueuePacket p highPrio).map Prod.fst)

/-- The packet is sent if there is something to send. -/
def sendIf (w : PacketWorld) (p : PacketPtr) (sent : Option BasePacket) : PacketWorld :=
  match sent with
  | none => w
  | some _ => w.send p false

/-! ### The table of neighbours -/

/-- `refreshNeigh`, with the references. -/
def refreshNeigh (w : PacketWorld) (t : AbsTime) (p : PacketPtr) (c : BasePacket) :
    Result PacketWorld := do
  let idx := w.routing.findNeigh (SrcPacket.getSrc c)
  let (r, isNew) ← w.routing.refreshNeigh t c
  let w := { w with routing := r }
  if isNew then
    -- the reference of `init` is dropped again with the last beacon, which is the same packet
    let i := (-idx - 1).toNat
    let w := ((w.ref p).unref p).ref p
    .ok { w with lastBeacons := w.lastBeacons.take i ++ p :: w.lastBeacons.drop i }
  -- cannot add more neighbors
  else if idx < 0 then .ok w
  else match w.lastBeacons[idx.toNat]? with
    | none => .error .outOfBounds
    | some last =>
      let w := (w.unref last).ref p
      .ok { w with lastBeacons := w.lastBeacons.set idx.toNat p }

/-- `recv_beacon`. -/
def recvBeacon (host : Host) (clock : Clock) (w : PacketWorld) (p : PacketPtr)
    (c : BasePacket) : Result PacketWorld :=
  let c := c.setType .beacon
  match w.routing.cryptoUnit with
  | none => w.refreshNeigh clock.lastEventTime p c
  | some cu => do
    let len ← c.sizeMinus cryptoLen
    let (cu, buf, ok) := cu.verifySignature host.ccm (SrcPacket.getSrc c) c.buffer len []
    let w := { w with routing := { w.routing with cryptoUnit := some cu } }
    if !ok then .ok w
    else w.refreshNeigh clock.lastEventTime p { c with buffer := buf }

/-- `removeOldNeigh`. The pointers of the entries that are dropped are just forgotten. -/
def removeOldNeigh (w : PacketWorld) (now : AbsTime) : PacketWorld :=
  { w with
    routing := w.routing.removeOldNeigh now
    lastBeacons :=
      ((w.routing.neighbors.zip w.lastBeacons).filter fun e => !e.1.isExpired now).map Prod.snd }

/-- `send_topo`, with the memory of the topo packet. -/
def sendTopo (host : Host) (clock : Clock) (w : PacketWorld) (p : PacketPtr) :
    Result PacketWorld := do
  let (r, sent) ← w.routing.sendTopo host clock
  .ok ((({ w with routing := r }.newPacket p).sendIf p sent).unref p)

/-- `checkLinkFailure`, with the memory of the topo packet. -/
def checkLinkFailure (host : Host) (clock : Clock) (w : PacketWorld) (p : PacketPtr) :
    Result PacketWorld := do
  let (neighbors, topoChanged, minValidity) ←
    AwdsRouting.checkLinks clock.lastEventTime w.routing.neighbors false none
  let r := { w.routing with neighbors := neighbors, linkFailBlocker := minValidity }
  let w := { w with routing := r }.removeOldNeigh clock.lastEventTime
  if topoChanged then w.sendTopo host clock p else .ok w

/-! ### Handlers of unicast packets -/

/-- What becomes of the packet in `recv_unicast`. -/
def finish (deliver : PacketWorld → PacketPtr → BasePacket → Result PacketWorld)
    (w : PacketWorld) (p : PacketPtr) : UnicastAction → Result PacketWorld
  | .drop => .ok w
  | .deliver c => deliver w p c
  | .send _ => .ok (w.send p false)

/-- `sendUnicast`. -/
def sendUnicast (host : Host) (clock : Clock)
    (deliver : PacketWorld → PacketPtr → BasePacket → Result PacketWorld) (w : PacketWorld)
    (p : PacketPtr) (c : BasePacket) : Result PacketWorld := do
  let (r, action) ← w.routing.sendUnicast host clock c
  finish deliver { w with routing := r } p action

/-- `TapInterface::recv_unicast`. -/
def tapRecvUnicast (host : Host) (clock : Clock) (w : PacketWorld) (c : BasePacket) :
    Result PacketWorld := do
  let (r, _) ← TapInterface.recvUnicast host clock w.routing c
  .ok { w with routing := r }

/-- `Pinger::ping_recv`. -/
def pingRecv (host : Host) (clock : Clock)
    (deliver : PacketWorld → PacketPtr → BasePacket → Result PacketWorld) (w : PacketWorld)
    (p : PacketPtr) (c : BasePacket) : Result PacketWorld := do
  let (r, reply) ← Pinger.pingRecv host clock w.routing c
  let w := { w with routing := r }
  match reply with
  | none => .ok w
  | some action => do
    let w ← finish deliver (w.ref p) p action
    .ok (w.unref p)

/-- A metric packet of the type `t` that goes to `dest` in the memory `p`. -/
def sendvia (host : Host) (w : PacketWorld) (p : PacketPtr) (t : UCMetricType)
    (dest : NodeId) : PacketWorld :=
  let (r, c) := UCMetricPacket.new host w.routing t
  ({ w with routing := r }.newPacket p).sendIf p (UCastMetric.sendvia host c dest)

/-- `RTTMetric::on_recv`. -/
def rttRecv (host : Host) (clock : Clock) (w : PacketWorld) (m : RTTMetric)
    (p response : PacketPtr) (c : BasePacket) : PacketWorld :=
  if UCMetricPacket.hasType c .req then
    -- the packet that is dropped is the one that was received
    (w.sendvia host response .resp (SrcPacket.getSrc c)).unref p
  else { w with metric := .rtt (m.noteResponse c clock.lastEventTime) }

/-- `PktPair::on_recv`. -/
def pktPairRecv (host : Host) (clock : Clock) (w : PacketWorld) (m : PktPair)
    (response : PacketPtr) (c : BasePacket) : PacketWorld :=
  if UCMetricPacket.hasType c .first then
    { w with metric := .pktPair (m.noteFirst c clock.lastEventTime) }
  else if UCMetricPacket.hasType c .second then
    match m.firstPackets[SrcPacket.getSrc c]? with
    | none => w
    -- the response keeps the reference of its creator
    | some _ => w.sendvia host response .resp (SrcPacket.getSrc c)
  else if UCMetricPacket.hasType c .resp then
    { w with metric := .pktPair (m.noteResponse c) }
  else w

/-- `ExtMetric::recv_packet`. `TTMetric::on_recv` is empty. -/
def metricRecv (host : Host) (clock : Clock) (w : PacketWorld) (p response : PacketPtr)
    (c : BasePacket) : PacketWorld :=
  match w.metric with
  | .rtt m => w.rttRecv host clock m p response c
  | .pktPair m => w.pktPairRecv host clock m response c
  | .tt _ => w

/-- `isReachable`. -/
def isReachable (host : Host) (clock : Clock) (w : PacketWorld) (id : NodeId) :
    Result (PacketWorld × Bool) := do
  let (t, _, found) ← w.routing.topology.getNextHop host.toStation clock.lastEventTime id
  .ok ({ w with routing := { w.routing with topology := t } }, found)

/-- `Traffic::send_reply`. -/
def sendReply (host : Host) (clock : Clock)
    (deliver : PacketWorld → PacketPtr → BasePacket → Result PacketWorld) (w : PacketWorld)
    (rp : PacketPtr) (dest : NodeId) : Result PacketWorld :=
  let (r, c) := TrafficPacket.new host w.routing .fromsink dest
  ({ w with routing := r }.newPacket rp).sendUnicast host clock deliver rp c

/-- The part of `Traffic::send` behind the settings. -/
def sendNext (host : Host) (clock : Clock)
    (deliver : PacketWorld → PacketPtr → BasePacket → Result PacketWorld) (w : PacketWorld)
    (p : PacketPtr) : Result PacketWorld :=
  if w.traffic.count > w.traffic.packetCount then .ok w
  else do
    let (w, reachable) ← w.isReachable host clock w.traffic.dest
    if !reachable then .ok w
    else
      let (r, c) := TrafficPacket.new host w.routing .fromsrc w.traffic.dest
      let c := { c with size := (w.traffic.packetSize % 2 ^ 64).toNat }
      let w := { w with routing := r, traffic := w.traffic.countSent }
      let w ← (w.newPacket p).sendUnicast host clock deliver p c
      .ok (w.unref p)

/-- `Traffic::send`. -/
def trafficSend (host : Host) (clock : Clock)
    (deliver : PacketWorld → PacketPtr → BasePacket → Result PacketWorld) (w : PacketWorld)
    (p : PacketPtr) (pCount pSize : Int) (d : NodeId) : Result PacketWorld :=
  if w.traffic.type = .sink then .ok w
  else { w with traffic := w.traffic.setUp pCount pSize d }.sendNext host clock deliver p

/-- `Traffic::on_recv`, with the memory of the packet that is sent. -/
def trafficRecv (host : Host) (clock : Clock)
    (deliver : PacketWorld → PacketPtr → BasePacket → Result PacketWorld) (w : PacketWorld)
    (response : PacketPtr) (c : BasePacket) : Result PacketWorld :=
  match w.traffic.type with
  | .src =>
    if TrafficPacket.hasType c .fromsink then
      if w.traffic.packetCount > w.traffic.count then
        w.trafficSend host clock deliver response 0 0 0
      -- `exit(1)` behind the last packet
      else .error .assertion
    else .ok w
  | .sink =>
    if TrafficPacket.hasType c .fromsrc then do
      let (w, reachable) ← w.isReachable host clock (SrcPacket.getSrc c)
      if reachable then w.sendReply host clock deliver response (SrcPacket.getSrc c)
      else .ok { w with traffic := { w.traffic with dest := SrcPacket.getSrc c } }
    else .ok w

/-- The handler that is registered for a type of unicast packets. -/
def unicastRegister (w : PacketWorld) (type : Nat) : Option UnicastHandler :=
  [.tap, .ping, .metric, .traffic].find? fun h => h.protocol = type ∧ w.loaded h = true

/-- The call of the handler of a unicast packet, with `n` calls within each other at most. -/
def handle (host : Host) (clock : Clock) (response : PacketPtr) :
    Nat → PacketWorld → PacketPtr → BasePacket → Result PacketWorld
  | 0, _, _, _ => .error .diverges
  | n + 1, w, p, c =>
    match w.unicastRegister (UnicastPacket.getUcPacketType c) with
    | none => .ok w
    | some .tap => w.tapRecvUnicast host clock c
    | some .ping => w.pingRecv host clock (handle host clock response n) p c
    | some .metric => .ok (w.metricRecv host clock p response c)
    | some .traffic => w.trafficRecv host clock (handle host clock response n) response c

/-! ### Events -/

/-- `recv_packet`. -/
def recvPacket (host : Host) (clock : Clock) (n : Nat) (w : PacketWorld)
    (p response : PacketPtr) (c : BasePacket) : Result PacketWorld :=
  match w.routing.recvPacket host c with
  | none => .ok w
  | some .beacon => w.recvBeacon host clock p c
  | some .flood => do
    let (r, sent) ← w.routing.recvFlood host clock c
    .ok ({ w with routing := r }.sendIf p sent)
  | some .unicast => do
    let (r, action) ← w.routing.recvUnicast host clock c
    finish (handle host clock response n) { w with routing := r } p action
  | some .forward => do
    let action ← w.flows.sendFlowPacket host c
    match action with
    | .deliver receiver _ => nomatch receiver
    | .noReceiver => .ok w
    | .noRule => .ok w
    | .send _ => .ok (w.send p true)

/-- The end of `send_beacon`. What it does to the routing in front of that is a step elsewhere. -/
def sendBeacon (w : PacketWorld) (p : PacketPtr) : PacketWorld :=
  ((w.newPacket p).send p true).unref p

/-- `TapInterface::tap_recv` with a frame. -/
def tapRecv (host : Host) (clock : Clock) (n : Nat) (w : PacketWorld) (p response : PacketPtr)
    (frame : List UInt8) : Result PacketWorld := do
  let (r, outcome) ← TapInterface.tapRecv host clock w.routing frame
  let w := { w with routing := r }.newPacket p
  let w ← match outcome with
    | .inl sent => .ok (w.sendIf p sent)
    | .inr action => finish (handle host clock response n) w p action
  .ok (w.unref p)

/-- `Pinger::next_ping`. -/
def nextPing (host : Host) (clock : Clock) (n : Nat) (w : PacketWorld) (p response : PacketPtr)
    (pinger : Pinger) (stamp : List UInt8) : Result PacketWorld := do
  let (r, c) := Pinger.nextPing host w.routing pinger stamp
  let w ← ({ w with routing := r }.newPacket p).sendUnicast host clock
    (handle host clock response n) p c
  .ok (w.unref p)

/-- The command in the arguments of `topolock`: `TopoLockCmd`. -/
def topoLockCmd : List String → Option UInt8
  | _ :: cmd :: _ =>
    if cmd = "lock" then some 0 else if cmd = "unlock" then some 1
    else if cmd = "reset" then some 2 else none
  | _ => none

/-- `PACKET_TYPE_BC_TOPO_LOCK`. -/
abbrev packetTypeBcTopoLock : Nat := 100

/-- `topo_command_fn`. -/
def topoCommandFn (host : Host) (clock : Clock) (w : PacketWorld) (p : PacketPtr)
    (argv : List String) : Result PacketWorld :=
  let (r, c) := w.routing.newFloodPacket host packetTypeBcTopoLock
  let w := { w with routing := r }.newPacket p
  match topoLockCmd argv with
  -- the packet is there before the arguments are read
  | none => .ok w
  | some cmd => do
    let c := { c.write Flood.floodHeaderEnd [cmd] with size := Flood.floodHeaderEnd + 1 }
    let (r, sent) ← w.routing.sendBroadcast host clock c
    .ok (({ w with routing := r }.sendIf p sent).unref p)

/-- `on_wait` of the installed metric: `RTTMetric::go_measure`, and `on_wait` of `PktPair` and
of `TTMetric`. -/
def metricWait (host : Host) (clock : Clock) (w : PacketWorld) (p p2 : PacketPtr) :
    PacketWorld :=
  match w.metric with
  | .rtt m => match oldest SRttData.lastsend m.rttData with
    | none => w
    | some id =>
      { (w.sendvia host p .req id).unref p with metric := .rtt (m.noteRequest id clock.wallClock) }
  | .pktPair m => match oldest SNodeData.lastsend m.nodes with
    | none => w
    | some id =>
      { (w.sendvia host p .first id).sendvia host p2 .second id with
        metric := .pktPair (m.notePair id clock.wallClock) }
  | .tt m => match oldest TTNodeData.lastsend m.ttData with
    | none => w
    | some id =>
      { w.sendvia host p .req id with metric := .tt (m.noteRequest id clock.wallClock) }

/-- `Traffic::on_wait`. -/
def trafficWait (host : Host) (clock : Clock) (n : Nat) (w : PacketWorld)
    (p response : PacketPtr) : Result PacketWorld :=
  match w.traffic.type with
  | .src =>
    if w.traffic.lastcount = w.traffic.count then
      w.trafficSend host clock (handle host clock response n) p 0 0 0
    else .ok w
  | .sink => do
    let (w, reachable) ← w.isReachable host clock w.traffic.dest
    if reachable then w.sendReply host clock (handle host clock response n) p w.traffic.dest
    else .ok w

/-- What a station can do: `recv_data` with or without a packet, the callback of the queue, the
timers, frames and commands. What else changes the data of the modules is `elsewhere`. -/
inductive Call where
  | recvData (c : Option BasePacket)
  | transmit (ready : Bool)
  | sendBeacon
  | sendTopo
  | checkLinkFailure
  | tapRecv (frame : List UInt8)
  | nextPing (pinger : Pinger) (stamp : List UInt8)
  | topolock (argv : List String)
  | metricWait
  | trafficSend (pCount pSize : Int) (d : NodeId)
  | trafficWait
  | elsewhere (routing : AwdsRouting) (flows : FlowTables Empty) (loaded : UnicastHandler → Bool)
      (metric : UCastMetric) (traffic : Traffic)

/-- A call with the clocks and the memory of the packets that it creates. -/
structure Event where
  clock : Clock
  first : PacketPtr
  second : PacketPtr
  call : Call

/-- The memory of new packets is free. The callback of the queue is called if it is registered.
The table of neighbours is changed by beacons and by its job only. -/
def Event.Possible (w : PacketWorld) (e : Event) : Prop :=
  (w.q.refcount e.first = 0 ∧ w.q.refcount e.second = 0 ∧ e.first ≠ e.second) ∧
    match e.call with
    | .transmit _ => 0 < w.q.pending
    | .elsewhere routing _ _ _ _ => routing.neighbors.length = w.routing.neighbors.length
    | _ => True

/-- The work of an event. For `recv_data` it ends when `recv_packet` returns. -/
def work (host : Host) (n : Nat) (w : PacketWorld) (e : Event) : Result PacketWorld :=
  match e.call with
  | .recvData none => .ok (w.newPacket e.first)
  | .recvData (some c) => (w.newPacket e.first).recvPacket host e.clock n e.first e.second c
  | .transmit ready =>
    .ok (w.withQueue (SendQueue.xmitCb { w.q with pending := w.q.pending - 1 } ready))
  | .sendBeacon => .ok (w.sendBeacon e.first)
  | .sendTopo => w.sendTopo host e.clock e.first
  | .checkLinkFailure => w.checkLinkFailure host e.clock e.first
  | .tapRecv frame => w.tapRecv host e.clock n e.first e.second frame
  | .nextPing pinger stamp => w.nextPing host e.clock n e.first e.second pinger stamp
  | .topolock argv => w.topoCommandFn host e.clock e.first argv
  | .metricWait => .ok (w.metricWait host e.clock e.first e.second)
  | .trafficSend pCount pSize d =>
    w.trafficSend host e.clock (handle host e.clock e.second n) e.first pCount pSize d
  | .trafficWait => w.trafficWait host e.clock n e.first e.second
  | .elsewhere routing flows loaded metric traffic =>
    .ok { w with
      routing := routing, flows := flows, loaded := loaded, metric := metric, traffic := traffic }

/-- The references that are in the hands of the caller behind the work: `recv_data` has that of
the packet it has created. -/
def Event.held (e : Event) : PacketPtr → Nat :=
  match e.call with
  | .recvData _ => Pi.single e.first 1
  | _ => 0

/-- The end of `recv_data`. -/
def Event.release (e : Event) (w : PacketWorld) : PacketWorld :=
  match e.call with
  | .recvData _ => w.unref e.first
  | _ => w

/-- The places that keep references. -/
def stored (w : PacketWorld) : List PacketPtr := w.q.queue ++ w.lastBeacons

/-- The runs from the start of a station whose events meet a condition. -/
inductive Run (host : Host) (n : Nat) (cond : PacketWorld → Event → Prop) : PacketWorld → Prop
  | start (r : AwdsRouting) (loaded : UnicastHandler → Bool) (metric : UCastMetric)
      (traffic : Traffic) (empty : r.neighbors = []) :
      Run host n cond { routing := r, loaded := loaded, metric := metric, traffic := traffic }
  | step (w w' : PacketWorld) (e : Event) (run : Run host n cond w) (possible : e.Possible w)
      (ok : cond w e) (work : w.work host n e = .ok w') : Run host n cond (e.release w')

end PacketWorld

end Awds
