import Awds.Lib.MarkSweep
import Awds.Topology.Operations

/-!
# `Awds.Topology.MetricTables`: the tables of the measuring metrics

`RTTMetric`, `PktPair` and `TTMetric` keep a table of the neighbours that they measure. `feed`
is meant to keep it up to date: for an own topo packet it calls `begin_update` in front of the
merge, `addNode` and `delNode` in the merge, and `end_update` behind it.

The calls go through a `Metric *`, so they are those of the virtual functions of `Metric`
(`MetricHooks`). The three classes override `begin_update` and `end_update`. Their `addNode`
takes a `NodeId &` and that of `Metric` a `const NodeId &`: it is another function, which hides
that of `Metric` and does not override it. Each class has its `hooks` accordingly.

`feedWith` is `feed` with these calls. The weights do not depend on the tables, and the tables
do not depend on the weights.
-/

set_option autoImplicit false

namespace Awds

open Std Awds.Lib

/-- The virtual functions of `Metric` that `feed` calls, with the bodies of `Metric`. -/
structure MetricHooks (τ : Type) where
  addNode : τ → NodeId → τ := fun t _ => t
  delNode : τ → NodeId → τ := fun t _ => t
  beginUpdate : τ → τ := fun t => t
  endUpdate : τ → τ := fun t => t

/-- `RTTMetric::s_rtt_data`, behind the mark `in_use`. -/
structure SRttData where
  time : Duration := 1000000000
  lastsend : AbsTime := 0
  lastrecv : AbsTime := 0
  deriving DecidableEq, Repr

namespace RTTMetric

/-- `rttData`. -/
abbrev RTTData := MarkTable NodeId SRttData

/-- `RTTMetric::addNode`. -/
def addNode (rttData : RTTData) (nodeId : NodeId) : RTTData := mark {} rttData nodeId

/-- `RTTMetric::begin_update`. -/
def beginUpdate (rttData : RTTData) : RTTData := clearMarks rttData

/-- `RTTMetric::end_update`. -/
def endUpdate (rttData : RTTData) : RTTData := sweep rttData

/-- The virtual functions of a `RTTMetric`. -/
def hooks : MetricHooks RTTData where
  beginUpdate := beginUpdate
  endUpdate := endUpdate

end RTTMetric

/-- `PktPair::s_node_data`, behind the mark `active`. -/
structure SNodeData where
  lastsend : AbsTime
  time : Duration := 0
  capacity : Nat
  times : List Duration
  position : Nat := 0
  deriving DecidableEq, Repr

namespace PktPair

/-- `nodes`. -/
abbrev Nodes := MarkTable NodeId SNodeData

/-- The constructor of `s_node_data`, with the time of the event. -/
def newNodeData (now : AbsTime) (bufferSize : Nat) : SNodeData where
  lastsend := now
  capacity := bufferSize
  times := List.replicate bufferSize 1000000000

/-- `PktPair::addNode`. -/
def addNode (now : AbsTime) (bufferSize : Nat) (nodes : Nodes) (nodeId : NodeId) : Nodes :=
  mark (newNodeData now bufferSize) nodes nodeId

/-- `PktPair::begin_update`. -/
def beginUpdate (nodes : Nodes) : Nodes := clearMarks nodes

/-- `PktPair::end_update`. -/
def endUpdate (nodes : Nodes) : Nodes := sweep nodes

/-- The virtual functions of a `PktPair`. -/
def hooks : MetricHooks Nodes where
  beginUpdate := beginUpdate
  endUpdate := endUpdate

end PktPair

/-- `TTMetric::NodeData`, behind the mark `active`. -/
structure TTNodeData where
  tt : Int := 0xffff
  lastsend : AbsTime := 0
  deriving DecidableEq, Repr

namespace TTMetric

/-- `ttData`. -/
abbrev TTData := MarkTable NodeId TTNodeData

/-- `TTMetric::addNode`. -/
def addNode (ttData : TTData) (nodeId : NodeId) : TTData := mark {} ttData nodeId

/-- `TTMetric::begin_update`. -/
def beginUpdate (ttData : TTData) : TTData := clearMarks ttData

/-- `TTMetric::end_update`. -/
def endUpdate (ttData : TTData) : TTData := sweep ttData

/-- The virtual functions of a `TTMetric`. -/
def hooks : MetricHooks TTData where
  beginUpdate := beginUpdate
  endUpdate := endUpdate

end TTMetric

namespace RTopology

/-- The calls of the metric in the merge of an own packet. They pass the neighbour `node` that
was read last from the packet. -/
def mergeHooks {τ : Type} (hooks : MetricHooks τ) (node : NodeId) (table : τ)
    (ops : List MergeOp) : τ :=
  ops.foldl (fun table op => match op with
    | .kept _ _ => table
    | .added _ => hooks.addNode table node
    | .removed _ => hooks.delNode table node) table

/-- The neighbour that was read last. A `NodeId` is 0 at first. -/
def lastRead (links : List LinkQuality) : NodeId :=
  match links.getLast? with
  | none => 0
  | some l => l.neighbor

/-- `feed` with the calls of the metric, whose table is `table`. -/
def feedWith {τ : Type} (hooks : MetricHooks τ) (st : Station) (now : AbsTime) (s : RTopology)
    (p : BasePacket) (table : τ) : Result (RTopology × τ) :=
  if s.locked then .ok (s, table)
  else if p.size < TopoPacket.offsetLinks + 1 then .ok (s, table)
  else
    let src := SrcPacket.getSrc p
    let n := TopoPacket.getNumLinks p
    let s := s.getNodeEntry st now src
    if TopoPacket.getValidity p ≤ 0 then .error .assertion
    else
      let newValidity := now + TopoPacket.getValidity p
      if p.size < TopoPacket.offsetLinks + n * TopoPacket.linkSize then
        .ok (s.swapLinks src newValidity (List.replicate n {}), table)
      else do
        let table := if src = st.myNodeId then hooks.beginUpdate table else table
        let links ← parseLinks p.buffer n TopoPacket.offsetLinks none
        let ops := mergeOps links (s.adjList.linksOf src)
        let s ← s.mergeLinks st now newValidity p links
        let table := if src = st.myNodeId then
            hooks.endUpdate (mergeHooks hooks (lastRead links) table ops)
          else table
        let s ← if s.dirty then s.updateTopology st now else .ok s
        .ok (s, table)

end RTopology

end Awds
