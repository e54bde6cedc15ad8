import Awds.Lib.SortedMerge
import Awds.Topology.State

/-!
# `Awds.Topology.Operations`: the operations on the topology

The functions of `Topology.cc` that change an `RTopology`:

* `removeOldNodes`, the pass over `adjList` that drops expired link lists and nodes. The
  timer job `cleanup_nodes` runs it, and so do `reset` and `updateTopology`.
* `calcRoutes`, the shortest-path computation, with `calcNextHop`, which follows the
  predecessors of a node back to the own node.
* `feed`, which reads a topo packet and replaces the links of its source.
* `getNextHop`, which recomputes the routes first when they are out of date.

`Event` is one call with its time, and `exec` is its effect. `Reachable` is the set of
states that some sequence of calls produces from the constructor.

`GEA.lastEventTime` is the argument `now`. `AbsTime::now()`, which only `reset` reads, is
part of its event.
-/

set_option autoImplicit false

namespace Awds

open Std Awds.Lib

/-! ### Expiry -/

/-- The state of the pass of `removeOldNodes`: the map, the two parts of the document, the
flag `oneRemoved` and the time of the next cleanup. -/
structure Sweep where
  adj : AdjList
  edges : List XmlElement := []
  nodes : List XmlElement := []
  oneRemoved : Bool := false
  nextTimeout : AbsTime

namespace Sweep

/-- Drops the links of the node `id`, whose entry is `nd`, if they have expired. -/
def dropEdges (t : AbsTime) (w : Sweep) (id : NodeId) (nd : NDescr) : Result Sweep :=
  if nd.edgeValidity ≤ t then do
    -- remove all link references from outside
    let adj ← (List.range nd.links.length).foldlM
      (fun (adj : AdjList) i => adj.removeReference ⟨id, nd.linklist.buf, i⟩) w.adj
    .ok { w with
      adj := adj.modify id fun nd => { nd with linklist := { nd.linklist with links := [] } }
      edges := w.edges ++ nd.links.map fun l => .removeEdge id l.neighbor
      oneRemoved := true }
  else .ok w

/-- Drops the node `id` if it has expired. -/
def dropNode (t : AbsTime) (w : Sweep) (id : NodeId) (nd : NDescr) : Sweep :=
  if nd.nodeValidity ≤ t then
    { w with
      adj := w.adj.erase id
      nodes := w.nodes ++ [.removeNode id]
      oneRemoved := true }
  -- the next cleanup is due when the first node that is left expires
  else { w with nextTimeout := min w.nextTimeout nd.nodeValidity }

/-- One turn of the pass. -/
def visit (t : AbsTime) (w : Sweep) (id : NodeId) : Result Sweep :=
  match w.adj[id]? with
  | none => .ok w
  | some nd => do
    let w ← w.dropEdges t id nd
    .ok (w.dropNode t id nd)

end Sweep

namespace RTopology

/-- The longest time between two cleanups: `Duration(31415,10)`. -/
abbrev maxCleanupDelay : Duration := 3141500000000

/-- `removeOldNodes`, with the time of the next cleanup. A node is only erased when the
pass stands on it, so the pass visits the keys the map has at its start. -/
def removeOldNodes (now : AbsTime) (s : RTopology) : Result (RTopology × AbsTime) :=
  if s.adjList.isEmpty then .error .assertion
  -- while the topology is locked nothing expires, not even the own node
  else if s.locked then .ok (s, now + maxCleanupDelay)
  else do
    let w ← s.adjList.keys.foldlM (Sweep.visit now)
      { adj := s.adjList, nextTimeout := now + maxCleanupDelay }
    let s := { s with adjList := w.adj }
    .ok (if w.oneRemoved then s.emit (w.edges ++ w.nodes) else s, w.nextTimeout)

/-- `doInvalidate` on the whole map, with the time `t`. -/
def invalidate (st : Station) (t : AbsTime) (s : RTopology) : RTopology :=
  { s with adjList := s.adjList.map fun id nd =>
      if id ≠ st.myNodeId then { nd with nodeValidity := t, edgeValidity := t } else nd }

/-- `reset`. The time `wallClock` is `AbsTime::now()`. -/
def reset (st : Station) (now wallClock : AbsTime) (s : RTopology) : Result RTopology := do
  let s := invalidate st wallClock { s with dirty := true }
  let (s, _) ← s.removeOldNodes now
  .ok s

end RTopology

/-! ### Routes -/

/-- `numeric_limits<unsigned>::max()`, the distance of an unreachable node. -/
abbrev maxDistance : Nat := 2 ^ 32 - 1

namespace AdjList

/-- The distance of a node. -/
def distanceOf (adj : AdjList) (id : NodeId) : Nat :=
  match adj[id]? with
  | none => maxDistance
  | some nd => nd.distance

/-- The first loop of `calcRoutes`. -/
def initRoutes (st : Station) (adj : AdjList) : AdjList :=
  adj.map fun id nd =>
    if id = st.myNodeId then
      { nd with nextHop := st.myNodeId, distance := 0, prevHop := st.myNodeId }
    else { nd with nextHop := st.myNodeId, distance := maxDistance }

/-- The loop over the links of `nearest`. The sum is truncated to 32 bits. -/
def relaxLinks (nearest : NodeId) : List LinkQuality → AdjList → Result AdjList
  | [], adj => .ok adj
  | l :: ls, adj =>
    -- all other nodes are unreachable, so we can stop here.
    if adj.distanceOf nearest = maxDistance then .ok adj
    else match adj[l.neighbor]? with
      | none => relaxLinks nearest ls adj
      | some neigh =>
        -- no negative weights or zero allowed!
        if l.metricWeight = 0 then .error .assertion
        else
          let newDist := (adj.distanceOf nearest + l.metricWeight.toNat) % 2 ^ 32
          relaxLinks nearest ls
            (if newDist < neigh.distance then
              adj.modify l.neighbor fun nd => { nd with distance := newDist, prevHop := nearest }
            else adj)

/-- The loop over `todo`. It ends when `todo` is empty; the first argument is the number
of nodes left. -/
def routeLoop (st : Station) : Nat → List NodeId → AdjList → Result AdjList
  | 0, _, adj => .ok adj
  | n + 1, todo, adj =>
    -- the nearest node is sorted to the back, from where it is popped
    let sorted := st.sort.sort (fun a b => decide (adj.distanceOf a > adj.distanceOf b)) todo
    match sorted.getLast?, sorted.head? with
    | some nearest, some front =>
      if adj.distanceOf nearest ≤ adj.distanceOf front then do
        let adj ← adj.relaxLinks nearest (adj.linksOf nearest)
        adj.routeLoop st n sorted.dropLast
      else .error .assertion
    | _, _ => .ok adj

/-- `adjList[id]`: the access creates a missing entry. -/
def touch (st : Station) (adj : AdjList) (id : NodeId) : AdjList :=
  if id ∈ adj then adj else adj.insert id (NDescr.new st)

/-- `calcNextHop`. A recursion that is deeper than the number of nodes visits a node twice
and does not end. -/
def calcNextHop (st : Station) : Nat → NodeId → AdjList → Result AdjList
  | 0, _, _ => .error .diverges
  | n + 1, id, adj =>
    let adj := adj.touch st id
    match adj[id]? with
    | none => .ok adj
    | some d =>
      if d.distance = maxDistance then
        .ok (adj.modify id fun nd => { nd with nextHop := st.myNodeId })
      -- already calculated
      else if d.nextHop ≠ st.myNodeId then .ok adj
      -- end of recursion, also for the own node
      else if d.prevHop = st.myNodeId then
        .ok (adj.modify id fun nd => { nd with nextHop := id })
      else
        let adj := adj.touch st d.prevHop
        if d.distance < adj.distanceOf d.prevHop then .error .assertion
        else do
          let adj ← adj.calcNextHop st n d.prevHop
          match adj[d.prevHop]? with
          | none => .ok adj
          | some p => .ok (adj.modify id fun nd => { nd with nextHop := p.nextHop })

/-- `calcRoutes`, on the map. -/
def calcRoutes (st : Station) (adj : AdjList) : Result AdjList :=
  if st.myNodeId ∉ adj then .error .assertion
  else do
    let adj := adj.initRoutes st
    let adj ← adj.routeLoop st adj.keys.length adj.keys
    adj.keys.foldlM (fun (adj : AdjList) id => adj.calcNextHop st (adj.size + 1) id) adj

end AdjList

namespace RTopology

/-- `updateTopology`. The table for the kernel module that it builds at its end,
`topologyData`, does not change the topology. -/
def updateTopology (st : Station) (now : AbsTime) (s : RTopology) : Result RTopology := do
  let (s, _) ← s.removeOldNodes now
  let adj ← s.adjList.calcRoutes st
  .ok { s with adjList := adj, dirty := false }

/-- The four bytes of an `int` in memory, the low byte first. -/
def intBytes (x : Int) : List UInt8 := (toBigEndian 4 (x % 2 ^ 32).toNat).reverse

/-- The loop of `updateTopology` that writes the table for the kernel module behind the length:
for every node its identifier and its next hop. -/
def writeTable : List (NodeId × NDescr) → Nat → Buffer → Buffer
  | [], _, buf => buf
  | (id, nd) :: es, c, buf =>
    writeTable es (c + 2)
      ((buf.write (4 + c * NodeId.size) id.toArray).write (4 + (c + 1) * NodeId.size)
        nd.nextHop.toArray)

/-- `topology_data`, the buffer that `updateTopology` passes to the kernel module. The length
is stored in an `int`. With 2^30 nodes the product `node_count * 2` and the index `c` overflow,
and the table is written outside of the buffer. -/
def topologyData (adj : AdjList) : Result Buffer :=
  if 2 ^ 30 ≤ adj.size then .error .outOfBounds
  else
    let totalBytes : Int := adj.size * 2 * NodeId.size
    .ok (writeTable adj.toList 0 (Buffer.write (fun _ => 0) 0 (intBytes totalBytes)))

/-- `getNextHop`, with the next hop and the flag `found`. The callers pass a
default-constructed `nextHop`, which keeps its value when the destination is unknown. -/
def getNextHop (st : Station) (now : AbsTime) (s : RTopology) (dest : NodeId) :
    Result (RTopology × NodeId × Bool) := do
  let s ← if s.dirty then s.updateTopology st now else .ok s
  match s.adjList[dest]? with
  | none => .ok (s, 0, false)
  | some nd => .ok (s, nd.nextHop, decide (nd.nextHop ≠ st.myNodeId))

/-! ### Topo packets -/

/-- The loop that reads the links of a topo packet from offset `addr` on. `prev` is the
neighbour read before. A quality of 0 fails an assertion. A neighbour that is out of order
ends the loop early, and the assertion on the number of links behind it fails. -/
def parseLinks (buf : Buffer) : Nat → Nat → Option NodeId → Result (List LinkQuality)
  | 0, _, _ => .ok []
  | n + 1, addr, prev =>
    let node := NodeId.fromArray (buf.read addr NodeId.size)
    let q := UInt16.ofNat (ofBigEndian (buf.read (addr + NodeId.size) 2))
    if q = 0 then .error .assertion
    else if prev.any fun m => decide (m ≥ node) then .error .assertion
    else do
      let rest ← parseLinks buf n (addr + TopoPacket.linkSize) (some node)
      .ok ({ neighbor := node, quality := q } :: rest)

/-- Swaps the link vector of `src` for a new one and updates both validities. -/
def swapLinks (s : RTopology) (src : NodeId) (newValidity : AbsTime)
    (links : List LinkQuality) : RTopology :=
  { s.modifyNode src fun nd =>
      { nd.updateNodeValidity newValidity with
        edgeValidity := newValidity
        linklist := { buf := s.nextBuf, links := links } } with
    nextBuf := s.nextBuf + 1 }

/-- The common part of the cases 1 and 2 of the merge: the link at index `i` of the new
vector is connected with its reverse link and gets its weight. -/
def linkUp (st : Station) (now newValidity : AbsTime) (src : NodeId) (buf : Nat)
    (s : RTopology) (new : LinkQuality) (i : Nat) : Result RTopology := do
  let s := (s.getNodeEntry st now new.neighbor).modifyNode new.neighbor
    fun nd => nd.updateNodeValidity newValidity
  let it : LinkPtr := ⟨src, buf, i⟩
  let counterpart := s.adjList.findLink new.neighbor src
  let adj ← s.adjList.setCounterpart it counterpart
  let adj ← st.metric.calculate adj it
  .ok { s with adjList := adj }

/-- Case 3 of the merge: a link of the old vector is gone. The weight of its reverse link
is not recalculated. -/
def linkDown (st : Station) (now : AbsTime) (src : NodeId) (s : RTopology)
    (old : LinkQuality) : Result RTopology := do
  let s := s.getNodeEntry st now old.neighbor
  let adj ← match s.adjList.findLink old.neighbor src with
    | none => .ok s.adjList
    | some counterpart => s.adjList.setCounterpart counterpart none
  .ok { s with adjList := adj }

/-- The entries of the merge of the new and the old vector. A new link comes with its
index. -/
abbrev MergeOp := Diff (LinkQuality × Nat) LinkQuality

/-- The neighbour an entry of the merge is about. -/
def MergeOp.neighbor (op : MergeOp) : NodeId :=
  Diff.key (fun a : LinkQuality × Nat => a.1.neighbor) LinkQuality.neighbor op

/-- The merge of the two vectors. -/
def mergeOps (new old : List LinkQuality) : List MergeOp :=
  threeWay (fun a : LinkQuality × Nat => a.1.neighbor) LinkQuality.neighbor new.zipIdx old

/-- One turn of the merge loop. -/
def mergeStep (st : Station) (now newValidity : AbsTime) (src : NodeId) (buf : Nat)
    (s : RTopology) : MergeOp → Result RTopology
  -- The weights are computed again, but only another quality makes the routes dirty.
  | .kept (new, i) old => do
    let s ← s.linkUp st now newValidity src buf new i
    .ok { s with dirty := s.dirty || decide (new.quality ≠ old.quality) }
  | .added (new, i) => do
    let s ← s.linkUp st now newValidity src buf new i
    .ok { s with dirty := true }
  | .removed old => do
    let s ← s.linkDown st now src old
    .ok { s with dirty := true }

/-- The element of the document for one turn of the merge loop. -/
def edgeElement (src : NodeId) : MergeOp → Option XmlElement
  | .kept (new, _) old =>
    if new.quality ≠ old.quality then some (.modifyEdge src new.neighbor new.quality) else none
  | .added (new, _) => some (.addEdge src new.neighbor new.quality)
  | .removed old => some (.removeEdge src old.neighbor)

/-- The station name behind the links of a topo packet, as a C string. -/
def packetName (p : BasePacket) : Option (List UInt8) :=
  let addr := TopoPacket.offsetLinks + TopoPacket.getNumLinks p * TopoPacket.linkSize
  if p.size > addr then
    -- the bytes are not checked against the end of the packet
    let namelen := min (p.buffer addr).toNat 32
    some ((p.buffer.read (addr + 1) namelen).takeWhile (· ≠ 0))
  else none

/-- Stores the name of `src`, with the element of the document if it has changed. -/
def updateName (s : RTopology) (src : NodeId) (p : BasePacket) :
    RTopology × List XmlElement :=
  match packetName p, s.adjList[src]? with
  | some name, some nd =>
    let s := s.modifyNode src fun nd => { nd with nodeName := name }
    (s, if nd.nodeName ≠ name then [.modifyNode src (s.adjList.getNameOfNode src)] else [])
  | _, _ => (s, [])

/-- The part of `feed` behind the size checks and before the routes: the merge, the name
and the document. -/
def mergeLinks (st : Station) (now newValidity : AbsTime) (s : RTopology) (p : BasePacket)
    (links : List LinkQuality) : Result RTopology := do
  let src := SrcPacket.getSrc p
  let ops := mergeOps links (s.adjList.linksOf src)
  let s' ← ops.foldlM (mergeStep st now newValidity src s.nextBuf)
    (s.swapLinks src newValidity links)
  let (s', nameDoc) := s'.updateName src p
  let doc := ops.filterMap (edgeElement src) ++ nameDoc
  .ok (if doc.isEmpty then s' else s'.emit doc)

/-- `feed`. The first size check leaves the topology unchanged. The second one comes after
the swap of the link vectors, so it leaves a vector of default links behind. -/
def feed (st : Station) (now : AbsTime) (s : RTopology) (p : BasePacket) :
    Result RTopology :=
  -- when locked status is set, ignore new packets
  if s.locked then .ok s
  else if p.size < TopoPacket.offsetLinks + 1 then .ok s
  else
    let src := SrcPacket.getSrc p
    let n := TopoPacket.getNumLinks p
    let s := s.getNodeEntry st now src
    if TopoPacket.getValidity p ≤ 0 then .error .assertion
    else
      let newValidity := now + TopoPacket.getValidity p
      if p.size < TopoPacket.offsetLinks + n * TopoPacket.linkSize then
        .ok (s.swapLinks src newValidity (List.replicate n {}))
      else do
        let links ← parseLinks p.buffer n TopoPacket.offsetLinks none
        let s ← s.mergeLinks st now newValidity p links
        if s.dirty then s.updateTopology st now else .ok s

/-! ### Runs -/

/-- The constructor. The pass of `removeOldNodes` at its end finds nothing to remove. -/
def init (st : Station) (now : AbsTime) : RTopology :=
  { adjList := (∅ : AdjList).insert st.myNodeId
      { NDescr.new st with
        nodeValidity := now + Duration.ofMillis 5000
        edgeValidity := now + Duration.ofMillis 5000 } }

/-- A call. `watch` is the registration of an XML observer. -/
inductive Op where
  | feed (p : BasePacket)
  | cleanup
  | reset (wallClock : AbsTime)
  | setLocked (b : Bool)
  | getNextHop (dest : NodeId)
  | watch

/-- A call and the time of the event it happens in. -/
structure Event where
  now : AbsTime
  op : Op

/-- The effect of an event. -/
def exec (st : Station) (s : RTopology) (e : Event) : Result RTopology :=
  match e.op with
  | .feed p => s.feed st e.now p
  | .cleanup => do
    let (s, _) ← s.removeOldNodes e.now
    .ok s
  | .reset wallClock => s.reset st e.now wallClock
  | .setLocked b => .ok { s with locked := b }
  | .getNextHop dest => do
    let (s, _) ← s.getNextHop st e.now dest
    .ok s
  | .watch => .ok { s with watched := true }

/-- One event that satisfies `ok` in the state it happens in. -/
def Step (st : Station) (ok : RTopology → Event → Prop) (s s' : RTopology) : Prop :=
  ∃ e, ok s e ∧ s.exec st e = .ok s'

/-- The states of the runs from the constructor whose events all satisfy `ok`. -/
def Reachable (st : Station) (ok : RTopology → Event → Prop) (s : RTopology) : Prop :=
  ∃ t, Relation.ReflTransGen (Step st ok) (init st t) s

/-- An invariant of every run: it holds in the constructed state and every event that
satisfies `ok` keeps it. -/
theorem Reachable.invariant {st : Station} {ok : RTopology → Event → Prop}
    {P : RTopology → Prop} (init : ∀ t, P (init st t))
    (step : ∀ s e s', P s → ok s e → s.exec st e = .ok s' → P s') {s : RTopology}
    (h : Reachable st ok s) : P s := by
  obtain ⟨t, hrun⟩ := h
  induction hrun with
  | refl => exact init t
  | tail _ hstep ih =>
    obtain ⟨e, hok, he⟩ := hstep
    exact step _ e _ ih hok he

end RTopology

end Awds
