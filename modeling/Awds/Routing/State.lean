import Awds.Crypto
import Awds.Lib.RefCount
import Awds.Lib.RingBuffer
import Awds.Topology.Operations

/-!
# `Awds.Routing.State`: the routing of a station

`AwdsRouting` holds what a station knows beside its topology: the table of its neighbours
with their last beacons, the history of the flood packets it has seen, the handlers of
broadcast packets and the crypto unit.

`Host` is what does not change while a station runs, and `Clock` holds the two clocks an
event can read. The measurements of the installed metric change between events; they enter
through `myGetQuality`.

The fields of `NodeDescr` and the accessors of `Beacon` are those of the source. The counts
of a beacon are `char`s that are converted to `int` directly, so they can be negative. The
binary search in a beacon then walks in front of the list, and it need not end.
-/

set_option autoImplicit false

namespace Awds

open Std Awds.Lib

/-! ### The history of flood packets -/

/-- An entry of the history, `FloodHistory::Entry`. -/
structure FloodHistory.Entry where
  id : NodeId
  seq : Nat
  deriving DecidableEq, Repr

/-- `FloodHistory`, a ring of 128 entries. -/
abbrev FloodHistory := Ring FloodHistory.Entry 0x80

namespace FloodHistory

/-- The constructor. The entries are not initialised. -/
def new (hist : Nat → Entry) : FloodHistory where
  slots := hist
  last := 0
  count := 0
  last_lt := by decide
  count_le := by decide

/-- `insert`. -/
def insert (h : FloodHistory) (id : NodeId) (seq : Nat) : FloodHistory :=
  Ring.insert h ⟨id, seq⟩

/-- `contains`. -/
def contains (h : FloodHistory) (id : NodeId) (seq : Nat) : Bool :=
  Ring.search h fun e => decide (e.seq = seq) && decide (e.id = id)

end FloodHistory

/-! ### Beacons and neighbours -/

namespace Beacon

abbrev offsetPeriod : Nat := SrcPacket.srcPacketEnd
abbrev offsetNumNoMpr : Nat := offsetPeriod + 2
abbrev offsetNumMpr : Nat := offsetNumNoMpr + 1
abbrev offsetLNeigh : Nat := offsetNumMpr + 1

/-- `getNumNoMpr`. -/
def getNumNoMpr (p : BasePacket) : Int := signedByte (p.buffer offsetNumNoMpr)

/-- `getNumMpr`. -/
def getNumMpr (p : BasePacket) : Int := signedByte (p.buffer offsetNumMpr)

/-- The entry `m` of the neighbour list. An index below -2 lies in front of the buffer. -/
def neighAt (p : BasePacket) (m : Int) : Result NodeId :=
  let off : Int := offsetLNeigh + m * NodeId.size
  if off < 0 then .error .outOfBounds
  else .ok (.fromArray (p.buffer.read off.toNat NodeId.size))

/-- The loop of `hasNeighBinsearch`, at most `n` turns. The division rounds towards 0. -/
def binsearch (p : BasePacket) (id : NodeId) : Nat → Int → Int → Result Bool
  | 0, _, _ => .error .diverges
  | n + 1, a, b =>
    if a = b then .ok false
    else do
      let m := Int.tdiv (a + b) 2
      let mId ← neighAt p m
      if mId = id then .ok true
      else if mId < id then binsearch p id n (m + 1) b
      else binsearch p id n a m

/-- `hasNeighBinsearch`. The bounds are `char` sums and close in on each other, so a search
that has not ended after this many turns repeats itself. -/
def hasNeighBinsearch (p : BasePacket) (a b : Int) (id : NodeId) : Result Bool :=
  binsearch p id 1024 a b

/-- `hasMpr`. -/
def hasMpr (p : BasePacket) (id : NodeId) : Result Bool :=
  hasNeighBinsearch p 0 (getNumMpr p) id

/-- `hasNoMpr`. -/
def hasNoMpr (p : BasePacket) (id : NodeId) : Result Bool :=
  hasNeighBinsearch p (getNumMpr p) (getNumMpr p + getNumNoMpr p) id

/-- `hasNeigh`. -/
def hasNeigh (p : BasePacket) (id : NodeId) : Result Bool := do
  if ← hasMpr p id then .ok true else hasNoMpr p id

end Beacon

/-- A neighbour, `awds::NodeDescr`. -/
structure NodeDescr where
  id : NodeId
  lastBeacon : Option BasePacket
  lastBeaconTime : AbsTime := 0
  beaconInterval : Duration := 0
  linkValidity : AbsTime := 0
  beaconHist : UInt32 := 0
  active : Bool := false
  mpr : Bool := true

namespace NodeDescr

/-- `isGood`. -/
def isGood (nd : NodeDescr) : Bool := nd.active

/-- `isBidiGood`. -/
def isBidiGood (nd : NodeDescr) (myId : NodeId) : Result Bool :=
  match nd.lastBeacon with
  | none => .ok false
  | some beacon => do
    if ← Beacon.hasNeigh beacon myId then .ok nd.isGood else .ok false

end NodeDescr

/-! ### The tap interface -/

/-- `TapInterface::MacEntry`. -/
structure MacEntry where
  id : NodeId
  validity : AbsTime
  deriving DecidableEq, Repr

/-- `TapInterface`: the table of the MAC addresses behind other stations, and the frames
that were written to the device. -/
structure TapInterface where
  macTable : ExtTreeMap NodeId MacEntry compare := ∅
  written : List (List UInt8) := []

namespace TapInterface

/-- `PROTO_NR`. -/
abbrev protoNr : Nat := 0x62

/-- The time an entry of the table is valid: `Duration(30.)`. -/
abbrev macLifetime : Duration := 30000000000

/-- `getNodeForMacAddress`, on the six bytes of the address. -/
def getNodeForMacAddress (tap : TapInterface) (mac : List UInt8) (t : AbsTime) :
    Option NodeId :=
  match tap.macTable[NodeId.fromArray mac]? with
  | none => none
  | some entry => if entry.validity < t then none else some entry.id

/-- `storeSrcAndMac`, on the frame at offset `frame`. -/
def storeSrcAndMac (tap : TapInterface) (id : NodeId) (buf : Buffer) (frame : Nat)
    (t : AbsTime) : TapInterface :=
  let m := NodeId.fromArray (buf.read (frame + 6) NodeId.size)
  { tap with macTable := tap.macTable.insert m { id := id, validity := t + macLifetime } }

end TapInterface

/-! ### The routing -/

/-- What is fixed for one station. -/
structure Host extends Station where
  broadcastId : NodeId
  ccm : Ccm

/-- The clocks: `GEA.lastEventTime` and `AbsTime::now()`. -/
structure Clock where
  lastEventTime : AbsTime
  wallClock : AbsTime

/-- The handlers of broadcast packets: `TapInterface::recv_broadcast` and
`TopoLock::topolock_recv`. -/
inductive BroadcastHandler where
  | tap
  | topoLock
  deriving DecidableEq, Repr

/-- The type of the period of topo packets. -/
inductive PeriodType where
  | constant
  | adaptive
  deriving DecidableEq, Repr

/-- `AwdsRouting::Hop2List`: how often a station is listed in the beacons of the neighbours.
Only `stat` of a `Hop2RefCount` is used. -/
abbrev Hop2List := RefCounts NodeId

/-- The state of `AwdsRouting`. `neighbors` holds the entries below `numNeigh`. The time of
`linkFailBlocker` is that of the call of `checkLinkFailure` it waits for. The name of the
station is a C string. `topoPeriodMs` is an `int`. -/
structure AwdsRouting where
  floodHistory : FloodHistory
  topology : RTopology
  neighbors : List NodeDescr := []
  hop2list : Hop2List := ∅
  linkFailBlocker : Option AbsTime := none
  nodeName : List UInt8 := []
  topoPeriodMs : Int := 1000
  topoPeriodType : PeriodType := .adaptive
  floodSeq : UInt16 := 0
  unicastSeq : UInt16 := 0
  cryptoUnit : Option AesCcmCryptoUnit := none
  broadcastRegister : Int → Option BroadcastHandler := fun _ => none
  firewall : Option (BasePacket → Bool) := none
  tap : TapInterface := {}
  myGetQuality : NodeDescr → UInt16 := fun _ => 10

namespace AwdsRouting

/-- `MaxNeighbors`. -/
abbrev maxNeighbors : Nat := 40

/-- The loop of `findNeigh`, at most `n` turns. -/
def findNeighLoop (ns : List NodeDescr) (id : NodeId) : Nat → Nat → Nat → Int
  | 0, a, _ => -(a : Int) - 1
  | n + 1, a, b =>
    if a = b then -(a : Int) - 1
    else
      let m := (a + b) / 2
      match ns[m]? with
      | none => -(a : Int) - 1
      | some nd =>
        if nd.id = id then m
        else if nd.id < id then findNeighLoop ns id n (m + 1) b
        else findNeighLoop ns id n a m

/-- `findNeigh`: the index of a neighbour, or a negative number if it is not found. -/
def findNeigh (r : AwdsRouting) (id : NodeId) : Int :=
  findNeighLoop r.neighbors id (r.neighbors.length + 1) 0 r.neighbors.length

/-- `Metric::get_quality`. -/
def getQuality (r : AwdsRouting) (nd : NodeDescr) : UInt16 :=
  let q := min (r.myGetQuality nd) Metric.maxQuality
  if q < 1 then 1 else q

end AwdsRouting

end Awds
