import Awds.Pinger
import Awds.Topology.MetricTables

/-!
# `Awds.Metrics`: the packets of the metrics and of the traffic generator

`RTTMetric`, `PktPair` and `TTMetric` send each other unicast packets of the type
`PACKET_TYPE_UC_METRIC`, and `Traffic` those of the type `PACKET_TYPE_TRAFFIC`. Here are the
access classes of these packets and the data of the modules. `Awds.PacketRefs` has their
handlers.

The numbers, the times and the size of a metric packet depend on the layout that the compiler
chooses for native values. They are left out, and so is the number in a traffic packet. What a
metric makes of a measured time is computed in floating point: the fields `smoothed` and
`setTime`.
-/

set_option autoImplicit false

namespace Awds

open Std Awds.Lib

/-! ### Metric packets -/

/-- `PACKET_TYPE_UC_METRIC`. -/
abbrev packetTypeUcMetric : Nat := 97

/-- `UCMetricPacket::Type`. -/
inductive UCMetricType where
  | req
  | resp
  | first
  | second
  deriving DecidableEq, Repr

/-- The code of a type. -/
def UCMetricType.code : UCMetricType → UInt8
  | req => 0
  | resp => 1
  | first => 2
  | second => 3

namespace UCMetricPacket

abbrev offsetSeq : Nat := UnicastPacket.unicastPacketEnd
abbrev offsetType : Nat := offsetSeq + 4

/-- `getType() == t`. -/
def hasType (p : BasePacket) (t : UCMetricType) : Bool := p.buffer offsetType = t.code

/-- `newUnicastPacket` with the constructor of a `UCMetricPacket`. Both arguments `ttl` are 2. -/
def new (host : Host) (r : AwdsRouting) (t : UCMetricType) : AwdsRouting × BasePacket :=
  let (r, p) := r.newUnicastPacket host packetTypeUcMetric
  (r, UnicastPacket.setTTL ((p.setType .unicast).write offsetType [t.code]) 2)

end UCMetricPacket

/-- `UCastMetric::sendvia`, with the packet that is sent, if any. -/
def UCastMetric.sendvia (host : Host) (p : BasePacket) (dest : NodeId) : Option BasePacket :=
  let p := (UnicastPacket.setUcDest (p.setType .unicast) dest).setDest dest
  AwdsRouting.sendUnicastVia host p dest

/-! ### The metrics -/

/-- The loop of `go_measure` and of both `on_wait`: the first node that has waited longest. -/
def oldest {δ : Type} (lastsend : δ → AbsTime) (t : MarkTable NodeId δ) : Option NodeId :=
  match t.toList with
  | [] => none
  | begin_ :: its =>
    some (its.foldl (fun oldest it =>
      if lastsend oldest.2.data > lastsend it.2.data then it else oldest) begin_).1

/-- A change of the data of a node that is in the table. -/
def modifyNode {δ : Type} (t : MarkTable NodeId δ) (id : NodeId) (f : δ → δ) :
    MarkTable NodeId δ :=
  match t[id]? with
  | none => t
  | some e => t.insert id { e with data := f e.data }

/-- `RTTMetric`. -/
structure RTTMetric where
  rttData : RTTMetric.RTTData := ∅
  smoothed : SRttData → BasePacket → AbsTime → Duration := fun d _ _ => d.time

namespace RTTMetric

/-- The end of `go_measure`. -/
def noteRequest (m : RTTMetric) (id : NodeId) (t : AbsTime) : RTTMetric :=
  { m with rttData := modifyNode m.rttData id fun d => { d with lastsend := t } }

/-- The branch of `on_recv` for a response. -/
def noteResponse (m : RTTMetric) (p : BasePacket) (now : AbsTime) : RTTMetric :=
  { m with rttData := modifyNode m.rttData (SrcPacket.getSrc p) fun d =>
      { d with time := m.smoothed d p now, lastrecv := now } }

end RTTMetric

/-- `PktPair`. -/
structure PktPair where
  nodes : PktPair.Nodes := ∅
  firstPackets : ExtTreeMap NodeId AbsTime compare := ∅
  setTime : SNodeData → BasePacket → SNodeData := fun d _ => d

namespace PktPair

/-- The branch of `on_recv` for a first packet. -/
def noteFirst (m : PktPair) (p : BasePacket) (now : AbsTime) : PktPair :=
  { m with firstPackets := m.firstPackets.insert (SrcPacket.getSrc p) now }

/-- The branch of `on_recv` for a response. -/
def noteResponse (m : PktPair) (p : BasePacket) : PktPair :=
  { m with nodes := modifyNode m.nodes (SrcPacket.getSrc p) fun d => m.setTime d p }

/-- The end of `on_wait`. -/
def notePair (m : PktPair) (id : NodeId) (t : AbsTime) : PktPair :=
  { m with nodes := modifyNode m.nodes id fun d => { d with lastsend := t } }

end PktPair

/-- `TTMetric`. -/
structure TTMetric where
  ttData : TTMetric.TTData := ∅

/-- The end of `on_wait`. -/
def TTMetric.noteRequest (m : TTMetric) (id : NodeId) (t : AbsTime) : TTMetric :=
  { m with ttData := modifyNode m.ttData id fun d => { d with lastsend := t } }

/-- The installed metric. -/
inductive UCastMetric where
  | rtt (m : RTTMetric)
  | pktPair (m : PktPair)
  | tt (m : TTMetric)

/-! ### The traffic generator -/

/-- `PACKET_TYPE_TRAFFIC`. -/
abbrev packetTypeTraffic : Nat := 96

/-- `TrafficPacket::Type`. -/
inductive TrafficPacketType where
  | fromsrc
  | fromsink
  deriving DecidableEq, Repr

/-- The code of a type. -/
def TrafficPacketType.code : TrafficPacketType → UInt8
  | fromsrc => 0
  | fromsink => 1

namespace TrafficPacket

abbrev offsetSeq : Nat := UnicastPacket.unicastPacketEnd
abbrev offsetType : Nat := offsetSeq + 4

/-- The end of the header, behind a `size_t`. -/
abbrev trafficHeaderEnd : Nat := offsetType + 8

/-- `getType() == t`. -/
def hasType (p : BasePacket) (t : TrafficPacketType) : Bool := p.buffer offsetType = t.code

/-- The packet that `send` and `send_reply` build for `dest`. -/
def new (host : Host) (r : AwdsRouting) (t : TrafficPacketType) (dest : NodeId) :
    AwdsRouting × BasePacket :=
  let (r, p) := r.newUnicastPacket host packetTypeTraffic
  let p := { (p.setType .unicast).write offsetType [t.code] with size := trafficHeaderEnd }
  (r, (UnicastPacket.setUcDest (p.setType .unicast) dest).setDest dest)

end TrafficPacket

/-- `Traffic::Type`. -/
inductive TrafficType where
  | src
  | sink
  deriving DecidableEq, Repr

/-- `Traffic`, without the times that it reports. -/
structure Traffic where
  type : TrafficType
  packetCount : Int := 0
  packetSize : Int := 0
  count : Int := 0
  lastcount : Int := 0
  dest : NodeId := 0

namespace Traffic

/-- The first lines of `send`: the settings, unless there are some. -/
def setUp (t : Traffic) (pCount pSize : Int) (d : NodeId) : Traffic :=
  if t.packetCount = 0 then
    { t with packetCount := pCount, packetSize := pSize, dest := d, lastcount := 0, count := 0 }
  else t

/-- The counters behind a packet of `send`. -/
def countSent (t : Traffic) : Traffic := { t with count := t.count + 1, lastcount := t.count + 1 }

end Traffic

end Awds
