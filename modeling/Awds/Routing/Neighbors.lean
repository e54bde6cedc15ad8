import Awds.Lib.SortedArray
import Awds.Routing.Operations

/-!
# `Awds.Routing.Neighbors`: beacons and the table of neighbours

`refreshNeigh` enters a beacon into the table of neighbours and `checkLinkFailure` is the job
that looks for neighbours without beacons. The table is an array in ascending order of the
addresses. `removeOldNeigh` compacts it in place.

A neighbour becomes active with the twelfth beacon in a row, and the first one that does so
arms the job. The job deactivates neighbours whose link is no longer valid, arms itself for
the next link that runs out and removes the neighbours that have been silent for long.

`hop2list` counts in how many beacons of neighbours a station is listed, `add2Hop` and
`remove2Hop` are its two operations.
-/

set_option autoImplicit false

namespace Awds

open Std Awds.Lib

namespace Beacon

/-- `getPeriod`, a 16-bit number of milliseconds. -/
def getPeriod (p : BasePacket) : Duration :=
  .ofMillis (ofBigEndian (p.buffer.read offsetPeriod 2))

/-- `setNumNoMpr`. -/
def setNumNoMpr (p : BasePacket) (n : Nat) : BasePacket := p.write offsetNumNoMpr [UInt8.ofNat n]

/-- `setNumMpr`. -/
def setNumMpr (p : BasePacket) (n : Nat) : BasePacket := p.write offsetNumMpr [UInt8.ofNat n]

/-- One of the two loops of `setNeigh`, with the number of entries and the address behind them:
the good neighbours whose `mpr` is the given one. -/
def insertNeigh (mpr : Bool) : List NodeDescr → Nat → Nat → BasePacket → Nat × Nat × BasePacket
  | [], num, addr, p => (num, addr, p)
  | nd :: nds, num, addr, p =>
    if nd.isGood && nd.mpr == mpr then
      insertNeigh mpr nds (num + 1) (addr + NodeId.size) (p.write addr nd.id.toArray)
    else insertNeigh mpr nds num addr p

/-- `setNeigh`. It does not use its argument `t`. -/
def setNeigh (r : AwdsRouting) (p : BasePacket) : BasePacket :=
  -- insert all MPR nodes
  let (numMpr, addr, p) := insertNeigh true r.neighbors 0 offsetLNeigh p
  let (numNoMpr, _, p) := insertNeigh false r.neighbors 0 addr p
  let p := setNumNoMpr (setNumMpr p numMpr) numNoMpr
  { p with size := offsetLNeigh + (numMpr + numNoMpr) * NodeId.size }

/-- The stations listed in a beacon. No station is listed if the sum of the counts is
negative. -/
def listed (p : BasePacket) : List NodeId :=
  (List.range (getNumNoMpr p + getNumMpr p).toNat).map fun i =>
    .fromArray (p.buffer.read (offsetLNeigh + i * NodeId.size) NodeId.size)

/-- `add2Hop`. -/
def add2Hop (p : BasePacket) (h : Hop2List) : Hop2List := (listed p).foldl addRef h

/-- `remove2Hop`. A station that has no entry fails an assertion. -/
def remove2Hop (p : BasePacket) (h : Hop2List) : Result Hop2List :=
  match (listed p).foldlM dropRef h with
  | none => .error .assertion
  | some h => .ok h

end Beacon

namespace NodeDescr

/-- `NR_BEACON_TRIGGER_FAIL`. -/
abbrev nrBeaconTriggerFail : Int := 8

/-- `init`. The members it does not set are set by `refreshNeigh`. -/
def init (id : NodeId) (p : BasePacket) (t : AbsTime) : NodeDescr where
  id := id
  lastBeacon := some p
  lastBeaconTime := t
  beaconHist := 0
  active := false
  mpr := true

/-- `updateActive`. The flag says whether the neighbour became active. -/
def updateActive (nd : NodeDescr) : NodeDescr × Bool :=
  let nd := { nd with
    linkValidity := nd.lastBeaconTime + nd.beaconInterval * nrBeaconTriggerFail }
  let last12received := decide (nd.beaconHist > 0xFFF00000)
  if !nd.active && last12received then ({ nd with active := true }, true) else (nd, false)

/-- `updateInactive`. The flag says whether the neighbour became inactive. -/
def updateInactive (nd : NodeDescr) (now : AbsTime) : NodeDescr × Bool :=
  let lastBeacon2old := decide (nd.linkValidity ≤ now)
  if nd.active && lastBeacon2old then ({ nd with active := false }, true) else (nd, false)

/-- `isExpired`. -/
def isExpired (nd : NodeDescr) (now : AbsTime) : Bool :=
  !nd.active && decide (nd.lastBeaconTime + nd.beaconInterval * 32 < now)

/-- The loop of `quality`, which takes the lowest bit from `x` until none is left. The counter
`n` is an `unsigned char`. -/
def qualityLoop (x : UInt32) (n : UInt8) : UInt8 :=
  let rest := x &&& (x - 1)
  if rest = 0 then n + 1 else qualityLoop rest (n + 1)
termination_by x.toNat
decreasing_by
  rename_i hrest
  have hx : x ≠ 0 := by
    rintro rfl
    exact hrest rfl
  have hpos : 0 < x.toNat := Nat.pos_of_ne_zero fun h0 => hx (UInt32.toNat_inj.mp h0)
  rw [UInt32.toNat_and]
  refine Nat.lt_of_le_of_lt Nat.and_le_right ?_
  rw [UInt32.toNat_sub_of_le x 1 (UInt32.le_iff_toNat_le.mpr hpos)]
  exact Nat.sub_lt hpos Nat.one_pos

/-- `quality`: the number of bits set in the beacon history. -/
def quality (nd : NodeDescr) : Result UInt8 :=
  let n := if nd.beaconHist ≠ 0 then qualityLoop nd.beaconHist 0 else 0
  if n > 0 then .ok n else .error .assertion

/-- The history of beacons behind the beacon with the number `seq`. The number of lost
beacons is an `unsigned char`, and a shift uses its five low bits. -/
def histAfter (beaconHist : UInt32) (last seq : Nat) : UInt32 :=
  let lostBeacon := UInt8.ofNat (seq + 2 ^ 16 - last)
  (beaconHist >>> lostBeacon.toUInt32) ||| 0x80000000

/-- The part of `refreshNeigh` that enters the beacon `p` into the neighbour, whose last
beacon was `last`. -/
def noteBeacon (nd : NodeDescr) (last p : BasePacket) (t : AbsTime) : NodeDescr × Bool :=
  updateActive { nd with
    beaconHist := histAfter nd.beaconHist (SrcPacket.getSeq last) (SrcPacket.getSeq p)
    lastBeacon := some p
    lastBeaconTime := t
    beaconInterval := Beacon.getPeriod p }

end NodeDescr

/-- `EtxMetric::my_get_quality`. -/
def EtxMetric.myGetQuality (nd : NodeDescr) : Result UInt16 := do
  let n ← nd.quality
  -- q=0 means: last 32 beacons received = very good link
  let q : UInt16 := 32 - n.toUInt16
  -- scale value to use the whole range of the quality type
  .ok (q.toUInt32 * (Metric.maxQuality.toUInt32 / 32)).toUInt16

namespace AwdsRouting

/-! ### Beacons -/

/-- The end of `refreshNeigh`: the neighbour is `nd` now, and the job is armed if it became
active and the job is not. -/
def armLinkCheck (r : AwdsRouting) (nd : NodeDescr) (becameActive : Bool) : AwdsRouting :=
  -- a job that is waiting already is not moved forward
  if becameActive ∧ r.linkFailBlocker = none then
    { r with linkFailBlocker := some nd.linkValidity }
  else r

/-- The branch of `refreshNeigh` for a new neighbour, which goes to the index `idx`. The
entries from there on are moved by one place. -/
def addNeigh (r : AwdsRouting) (p : BasePacket) (t : AbsTime) (idx : Nat) : AwdsRouting :=
  let (nd, becameActive) := (NodeDescr.init (SrcPacket.getSrc p) p t).noteBeacon p p t
  let r := { r with
    neighbors := r.neighbors.take idx ++ nd :: r.neighbors.drop idx
    hop2list := Beacon.add2Hop p r.hop2list }
  r.armLinkCheck nd becameActive

/-- The branch of `refreshNeigh` for the neighbour at the index `idx`. -/
def updateNeigh (r : AwdsRouting) (p : BasePacket) (t : AbsTime) (idx : Nat) :
    Result AwdsRouting :=
  match r.neighbors[idx]? with
  | none => .error .outOfBounds
  | some nd => match nd.lastBeacon with
    | none => .error .dangling
    | some last => do
      let h ← Beacon.remove2Hop last r.hop2list
      let (nd, becameActive) := nd.noteBeacon last p t
      let r := { r with
        neighbors := r.neighbors.set idx nd
        hop2list := Beacon.add2Hop p h }
      .ok (r.armLinkCheck nd becameActive)

/-- `refreshNeigh`. The flag says whether the neighbour is new. -/
def refreshNeigh (r : AwdsRouting) (t : AbsTime) (p : BasePacket) :
    Result (AwdsRouting × Bool) :=
  let idx := r.findNeigh (SrcPacket.getSrc p)
  if p.getType ≠ .beacon then .error .assertion
  -- cannot add more neighbors
  else if idx < 0 ∧ r.neighbors.length = maxNeighbors then .ok (r, false)
  -- this also hits a known neighbour of a full table
  else if ¬r.neighbors.length < maxNeighbors then .error .assertion
  else if idx < 0 then
    let r := r.addNeigh p t (-idx - 1).toNat
    if ¬r.neighbors.length ≤ maxNeighbors then .error .assertion else .ok (r, true)
  else do
    let r ← r.updateNeigh p t idx.toNat
    .ok (r, false)

/-- `recv_beacon`. -/
def recvBeacon (host : Host) (clock : Clock) (r : AwdsRouting) (p : BasePacket) :
    Result AwdsRouting :=
  let p := p.setType .beacon
  match r.cryptoUnit with
  | none => do
    let (r, _) ← r.refreshNeigh clock.lastEventTime p
    .ok r
  | some cu => do
    let len ← p.sizeMinus cryptoLen
    let (cu, buf, ok) := cu.verifySignature host.ccm (SrcPacket.getSrc p) p.buffer len []
    let r := { r with cryptoUnit := some cu }
    if !ok then .ok r
    else do
      let (r, _) ← r.refreshNeigh clock.lastEventTime { p with buffer := buf }
      .ok r

/-! ### The link-failure job -/

/-- `removeOldNeigh`. The array does not get longer, so its assertion holds. -/
def removeOldNeigh (r : AwdsRouting) (now : AbsTime) : AwdsRouting :=
  { r with neighbors := compact (fun nd => !nd.isExpired now) r.neighbors }

/-- The smallest validity of the links of active neighbours, with one more neighbour. Its
link has to be valid. -/
def minLinkValidity (now : AbsTime) (nd : NodeDescr) (minValidity : Option AbsTime) :
    Result (Option AbsTime) :=
  if nd.active then
    if ¬nd.linkValidity > now then .error .assertion
    else match minValidity with
      | none => .ok (some nd.linkValidity)
      | some m => .ok (some (if nd.linkValidity < m then nd.linkValidity else m))
  else .ok minValidity

/-- The loop of `checkLinkFailure`. Once a neighbour has become inactive, `updateInactive` is
not called any more. -/
def checkLinks (now : AbsTime) : List NodeDescr → Bool → Option AbsTime →
    Result (List NodeDescr × Bool × Option AbsTime)
  | [], topoChanged, minValidity => .ok ([], topoChanged, minValidity)
  | nd :: nds, topoChanged, minValidity => do
    let (nd, topoChanged) := if topoChanged then (nd, true) else nd.updateInactive now
    let minValidity ← minLinkValidity now nd minValidity
    let (nds, topoChanged, minValidity) ← checkLinks now nds topoChanged minValidity
    .ok (nd :: nds, topoChanged, minValidity)

/-- The part of `checkLinkFailure` in front of `send_topo`. The flag says whether the
topology has changed. While the job runs its blocker is not blocked. -/
def checkNeighbors (r : AwdsRouting) (now : AbsTime) : Result (AwdsRouting × Bool) := do
  let (neighbors, topoChanged, minValidity) ← checkLinks now r.neighbors false none
  let r := { r with neighbors := neighbors, linkFailBlocker := minValidity }
  .ok (r.removeOldNeigh now, topoChanged)

/-- `checkLinkFailure`, with the topo packet that is sent on. -/
def checkLinkFailure (host : Host) (clock : Clock) (r : AwdsRouting) :
    Result (AwdsRouting × Option BasePacket) := do
  let (r, topoChanged) ← r.checkNeighbors clock.lastEventTime
  if topoChanged then r.sendTopo host clock else .ok (r, none)

end AwdsRouting

end Awds
