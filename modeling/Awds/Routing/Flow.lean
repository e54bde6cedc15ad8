import Awds.Routing.Operations

/-!
# `Awds.Routing.Flow`: routing with flow tables

The part of `AwdsRouting` that implements `FlowRouting`. A packet of a flow is sent to the next
hop that the forwarding rule of its flow names, until it has reached its flow destination. There
it goes to a receiver.

A receiver is the function and the pointer that were registered, a value of a type `ρ`.
-/

set_option autoImplicit false

namespace Awds

open Std Awds.Lib

/-- `FlowRouting::FlowId`. -/
abbrev FlowId := UInt32

/-- The tables of flows of `AwdsRouting`: `forwardingTable` and `flowReceiverMap`. -/
structure FlowTables (ρ : Type) where
  forwardingTable : ExtTreeMap FlowId NodeId compare := ∅
  flowReceiverMap : ExtTreeMap FlowId ρ compare := ∅

/-- What becomes of a flow packet: it goes to a receiver, it has none, it has no rule or it is
sent on. -/
inductive FlowAction (ρ : Type) where
  | deliver (receiver : ρ) (p : BasePacket)
  | noReceiver
  | noRule
  | send (p : BasePacket)

namespace FlowTables

variable {ρ : Type}

/-- `addForwardingRule`. The flag says whether the rule is new. -/
def addForwardingRule (t : FlowTables ρ) (flowid : FlowId) (nextHop : NodeId) :
    FlowTables ρ × Bool :=
  if flowid ∈ t.forwardingTable then (t, false)
  else ({ t with forwardingTable := t.forwardingTable.insert flowid nextHop }, true)

/-- `addFlowReceiver`. The flag says whether the receiver was added. -/
def addFlowReceiver (t : FlowTables ρ) (flowid : FlowId) (receiver : ρ) : FlowTables ρ × Bool :=
  if flowid ∈ t.flowReceiverMap then (t, false)
  else ({ t with flowReceiverMap := t.flowReceiverMap.insert flowid receiver }, true)

/-- `newFlowPacket`. It sets neither the flow type nor the size. -/
def newFlowPacket (host : Host) (flowid : FlowId) : BasePacket :=
  let p := SrcPacket.setTraceFlag (BasePacket.new.setType .forward) false
  FlowPacket.setFlowId (SrcPacket.setSrc p host.myNodeId) flowid

/-- `sendFlowPacket`. -/
def sendFlowPacket (host : Host) (t : FlowTables ρ) (p : BasePacket) : Result (FlowAction ρ) :=
  if p.getType ≠ .forward then .error .assertion
  else if FlowPacket.getFlowDest p = host.myNodeId then
    -- the receiver is looked up by the flow type
    match t.flowReceiverMap[FlowPacket.getFlowType p]? with
    | none => .ok .noReceiver
    | some receiver => .ok (.deliver receiver p)
  else match t.forwardingTable[FlowPacket.getFlowId p]? with
    | none => .ok .noRule
    | some nextHop => .ok (.send (p.setDest nextHop))

end FlowTables

end Awds
