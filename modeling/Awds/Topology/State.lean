import Awds.Packet

/-!
# `Awds.Topology.State`: the topology of a station

`RTopology` holds the link-state graph of the network in `adjList`, a `std::map` from node
identifiers to `NDescr`. Every `NDescr` owns a vector of links, and a link carries a
pointer to the reverse link in the vector of its neighbour, the `counterpart`.

## Pointers into vectors

A pointer to a vector element is the pair of a buffer and an index. `LinkPtr` spells it
out: the node whose vector it is, the identity `buf` of the vector's buffer, and the index.
A vector that is swapped out and filled again gets a fresh `buf`, so a pointer into the old
elements no longer resolves. `AdjList.link?` follows a pointer, and an access through one
that does not resolve is `Fault.dangling`.

## Results

A function returns `Except Fault`. A fault stands for everything that ends the daemon: an
assertion that fails (the build does not define `NDEBUG`), a division by zero, an access
through a pointer that does not resolve or outside a buffer, or a loop that does not end.

## What is fixed for one station

`Station` holds what does not change while a topology runs: the own identifier, the
installed metric, the `std::sort` of the C++ library and the value that the uninitialised
field `distance` of a new `NDescr` happens to hold.

The callbacks to `NodesObserver` and `LinksObserver`, the debug output and the index of a
node are left out: no modelled function reads them.
-/

set_option autoImplicit false

namespace Awds

open Std Awds.Lib

/-- What ends the daemon. -/
inductive Fault where
  | assertion
  | divisionByZero
  | dangling
  | outOfBounds
  | diverges
  deriving DecidableEq, Repr

/-- The result of a function that may end the daemon. -/
abbrev Result := Except Fault

/-! ### The data -/

/-- A pointer to an element of the link vector of `owner`. -/
structure LinkPtr where
  owner : NodeId
  buf : Nat
  idx : Nat
  deriving DecidableEq, Repr

/-- A link of the topology, `RTopology::LinkQuality`. -/
structure LinkQuality where
  counterpart : Option LinkPtr := none
  neighbor : NodeId := 0
  quality : UInt16 := 0
  metricWeight : UInt32 := 0
  deriving DecidableEq, Repr

/-- The links of a node: a vector with the identity of its buffer. -/
structure LinkList where
  buf : Nat := 0
  links : List LinkQuality := []
  deriving DecidableEq, Repr

/-- A node of the topology, `RTopology::NDescr`. `nodeName` is a C string. -/
structure NDescr where
  linklist : LinkList := {}
  nextHop : NodeId := 0
  prevHop : NodeId := 0
  nodeValidity : AbsTime := 0
  edgeValidity : AbsTime := 0
  distance : Nat
  nodeName : List UInt8 := []
  deriving DecidableEq, Repr

/-- The adjacency list, a `std::map`. -/
abbrev AdjList := ExtTreeMap NodeId NDescr compare

/-- An element of the XML description of the topology and of its changes. The quality of
an edge is printed as a percentage, which determines it. -/
inductive XmlElement where
  | node (id : NodeId) (name : String)
  | edge (src dst : NodeId) (quality : UInt16)
  | addNode (id : NodeId) (name : String)
  | modifyNode (id : NodeId) (name : String)
  | removeNode (id : NodeId)
  | addEdge (src dst : NodeId) (quality : UInt16)
  | modifyEdge (src dst : NodeId) (quality : UInt16)
  | removeEdge (src dst : NodeId)
  deriving DecidableEq, Repr

/-- The state of `RTopology`. `watched` says whether a callback is registered in
`newXmlTopologyDelta`, `xmlLog` is the list of documents that were passed to it, and
`nextBuf` is the identity of the next vector buffer that is allocated. -/
structure RTopology where
  adjList : AdjList
  dirty : Bool := true
  locked : Bool := false
  watched : Bool := false
  xmlLog : List (List XmlElement) := []
  nextBuf : Nat := 0

/-- `std::sort` with a comparison function, on a vector of map iterators. The order of
elements that compare equal is not specified. -/
structure StdSort where
  sort : (NodeId → NodeId → Bool) → List NodeId → List NodeId
  perm : ∀ lt l, (sort lt l).Perm l
  sorted : ∀ (key : NodeId → Nat) (l : List NodeId),
    (sort (fun a b => decide (key a > key b)) l).Pairwise fun a b => key b ≤ key a

/-- Insertion sort, an implementation of `std::sort`. -/
def StdSort.insertion : StdSort where
  sort lt l := l.insertionSort fun a b => lt b a = false
  perm lt l := List.perm_insertionSort _ l
  sorted key l := by
    have : Std.Total fun a b : NodeId => decide (key b > key a) = false :=
      ⟨fun a b => by simpa using le_total (key b) (key a)⟩
    have : IsTrans NodeId fun a b => decide (key b > key a) = false :=
      ⟨fun a b c hab hbc => by simp at hab hbc ⊢; omega⟩
    exact (List.pairwise_insertionSort _ l).imp fun h => by simpa using h

/-- The virtual functions of a metric that the topology calls. -/
structure Metric where
  myCalculate : UInt16 → UInt16 → Result UInt32

/-- What is fixed for one station. -/
structure Station where
  myNodeId : NodeId
  metric : Metric
  sort : StdSort
  uninitDistance : Nat

/-! ### The metrics -/

namespace Metric

/-- `max_quality()`. -/
abbrev maxQuality : UInt16 := 0xffff

/-- The hop count, the base class `Metric`. -/
def hopCount : Metric where
  myCalculate _ _ := .ok 1

/-- `EtxMetric`, with the scale of its constructor. The division traps on a zero
divisor. -/
def etxMetric : Metric where
  myCalculate forward backward :=
    let divisor : UInt32 := (32 - (forward / (maxQuality / 32)).toUInt32)
      * (32 - (backward / (maxQuality / 32)).toUInt32)
    if divisor = 0 then .error .divisionByZero else .ok (1024 * 2048 / divisor)

/-- `RTTMetric`. -/
def rttMetric : Metric where
  myCalculate forward backward := .ok (forward.toUInt32 + backward.toUInt32)

/-- `PktPair`. -/
def pktPair : Metric where
  myCalculate forward backward := .ok (forward.toUInt32 + backward.toUInt32)

/-- `TTMetric`. -/
def ttMetric : Metric where
  myCalculate forward _ := .ok forward.toUInt32

/-- The largest weight `calculate` stores. -/
abbrev ceiling : UInt32 := 0xffffffff / 1024

end Metric

/-- A station with the default metric. -/
def Station.hopCount (id : NodeId) : Station where
  myNodeId := id
  metric := .hopCount
  sort := .insertion
  uninitDistance := 0

/-! ### Nodes and links -/

namespace NDescr

/-- `NDescr()`. The constructor does not set `distance`. -/
def new (st : Station) : NDescr := { distance := st.uninitDistance }

/-- `update_nodeValidity`. -/
def updateNodeValidity (nd : NDescr) (newV : AbsTime) : NDescr :=
  if nd.nodeValidity < newV then { nd with nodeValidity := newV } else nd

/-- The links of a node. -/
def links (nd : NDescr) : List LinkQuality := nd.linklist.links

/-- `findLinkQuality`: `std::lower_bound` for the neighbour, then a test for equality. The
result is the index of the link. -/
def findLinkQuality (nd : NDescr) (id : NodeId) : Option Nat :=
  let i := nd.links.findIdx fun l => !decide (l.neighbor < id)
  match nd.links[i]? with
  | none => none
  | some l => if l.neighbor = id then some i else none

/-- Changes one link of the vector in place. -/
def modifyLink (nd : NDescr) (i : Nat) (f : LinkQuality → LinkQuality) : NDescr :=
  { nd with linklist := { nd.linklist with links := nd.linklist.links.modify i f } }

end NDescr

namespace AdjList

/-- The links of a node, none if the node is absent. -/
def linksOf (adj : AdjList) (id : NodeId) : List LinkQuality :=
  match adj[id]? with
  | none => []
  | some nd => nd.links

/-- The link a pointer refers to. -/
def link? (adj : AdjList) (p : LinkPtr) : Option LinkQuality :=
  match adj[p.owner]? with
  | none => none
  | some nd => if nd.linklist.buf = p.buf then nd.links[p.idx]? else none

/-- Reads through a pointer. -/
def deref (adj : AdjList) (p : LinkPtr) : Result LinkQuality :=
  match adj.link? p with
  | none => .error .dangling
  | some l => .ok l

/-- Writes through a pointer. -/
def modifyLink (adj : AdjList) (p : LinkPtr) (f : LinkQuality → LinkQuality) :
    Result AdjList :=
  match adj.link? p with
  | none => .error .dangling
  | some _ => .ok (adj.modify p.owner fun nd => nd.modifyLink p.idx f)

/-- The result of `findLinkQuality` on the entry of `v`, as a pointer. -/
def findLink (adj : AdjList) (v id : NodeId) : Option LinkPtr :=
  match adj[v]? with
  | none => none
  | some nd => (nd.findLinkQuality id).map fun i => ⟨v, nd.linklist.buf, i⟩

/-- `LinkQuality::set_counterpart`, on the link `this`. -/
def setCounterpart (adj : AdjList) (this : LinkPtr) (lq : Option LinkPtr) :
    Result AdjList := do
  let adj ← match lq with
    | none => .ok adj
    | some q => adj.modifyLink q fun l => { l with counterpart := some this }
  adj.modifyLink this fun l => { l with counterpart := lq }

/-- `LinkQuality::remove_reference`, on the link `this`. -/
def removeReference (adj : AdjList) (this : LinkPtr) : Result AdjList := do
  match (← adj.deref this).counterpart with
  | none => .ok adj
  | some q =>
    let adj ← adj.modifyLink q fun l => { l with counterpart := none }
    adj.modifyLink this fun l => { l with counterpart := none }

/-- `LinkQuality::get_qualities`: both qualities, if the link has a counterpart. -/
def getQualities (adj : AdjList) (this : LinkPtr) : Result (Option (UInt16 × UInt16)) := do
  let l ← adj.deref this
  match l.counterpart with
  | none => .ok none
  | some q => do
    let r ← adj.deref q
    .ok (some (l.quality, r.quality))

/-- `LinkQuality::set_metric_weight`. -/
def setMetricWeight (adj : AdjList) (this : LinkPtr) (mw : UInt32) : Result AdjList := do
  let adj ← adj.modifyLink this fun l => { l with metricWeight := mw }
  match (← adj.deref this).counterpart with
  | none => .ok adj
  | some q => adj.modifyLink q fun l => { l with metricWeight := mw }

end AdjList

/-- `Metric::calculate`, on the link `it`. -/
def Metric.calculate (m : Metric) (adj : AdjList) (it : LinkPtr) : Result AdjList := do
  let mw ← match ← adj.getQualities it with
    | none => .ok 0xffffffff
    | some (f, b) => m.myCalculate f b
  adj.setMetricWeight it (min mw ceiling)

/-! ### Names -/

/-- The 12 hexadecimal digits of `operator<<`. -/
def NodeId.hex (id : NodeId) : List Char :=
  id.toArray.flatMap fun b =>
    [Nat.digitChar (b.toNat / 16), Nat.digitChar (b.toNat % 16)].map Char.toUpper

/-- `isalnum` in the C locale. -/
def isAlnum (c : UInt8) : Bool :=
  (48 ≤ c && c ≤ 57) || (65 ≤ c && c ≤ 90) || (97 ≤ c && c ≤ 122)

/-- The other characters that `getNameOfNode` does not quote. -/
def plainChars : List Char := "-+*?$%/()[]\x7b\x7d^;._".toList

/-- A character of a name as it is printed. -/
def quoteChar (c : UInt8) : List Char :=
  let ch := Char.ofNat c.toNat
  if isAlnum c || plainChars.contains ch then [ch]
  else ("&#" ++ toString (signedByte c) ++ ";").toList

/-- `getNameOfNode`. The source reads the name through the iterator before it checks it;
its callers pass a node of the map. -/
def AdjList.getNameOfNode (adj : AdjList) (id : NodeId) : String :=
  let n := match adj[id]? with
    | none => []
    | some nd => nd.nodeName
  let ambiguous := n.isEmpty ||
    adj.toList.any fun e => decide (e.2.nodeName = n) && decide (e.1 ≠ id)
  let suffix : List Char := if ambiguous then '[' :: (id.hex ++ [']']) else []
  String.ofList (n.flatMap quoteChar ++
    suffix.flatMap fun c => quoteChar (UInt8.ofNat c.toNat))

/-! ### The topology -/

namespace RTopology

/-- Passes a document to the observers of topology changes. -/
def emit (s : RTopology) (doc : List XmlElement) : RTopology :=
  if s.watched then { s with xmlLog := s.xmlLog ++ [doc] } else s

/-- `getXmlString`: the nodes, then the edges. -/
def getXmlString (s : RTopology) : List XmlElement :=
  s.adjList.toList.map (fun e => .node e.1 (s.adjList.getNameOfNode e.1)) ++
    s.adjList.toList.flatMap fun e => e.2.links.map fun l => .edge e.1 l.neighbor l.quality

/-- The time a new entry is valid without being confirmed: `Duration(1,10)`. -/
abbrev entryLifetime : Duration := 100000000

/-- `getNodeEntry`: the entry of a node is created if it is missing. -/
def getNodeEntry (st : Station) (now : AbsTime) (s : RTopology) (id : NodeId) : RTopology :=
  if id ∈ s.adjList then s
  else
    let adj : AdjList := s.adjList.insert id
      { NDescr.new st with
        nodeValidity := now + entryLifetime
        edgeValidity := now + entryLifetime }
    emit { s with adjList := adj } [.addNode id (adj.getNameOfNode id)]

/-- Changes the entry of a node. -/
def modifyNode (s : RTopology) (id : NodeId) (f : NDescr → NDescr) : RTopology :=
  { s with adjList := s.adjList.modify id f }

end RTopology

end Awds
