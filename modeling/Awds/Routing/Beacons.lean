import Awds.Lib.WhileLoop
import Awds.Routing.Neighbors
import Awds.Topology.Names

/-!
# `Awds.Routing.Beacons`: the sending of beacons

`sendBeacon` builds a beacon, signs it and sets the time of the next one. A beacon carries its
period in milliseconds, in 16 bits. The shell command `beaconperiod` sets the period. It gets an
`int` from `atoi` and refuses 0 only.

`BeaconRouting` is `AwdsRouting` with the three members that only the sending of beacons uses.
`makeBeacon` is the part of `send_beacon` in front of `base->send`, and `catchUp` is the loop
behind it.
-/

set_option autoImplicit false

namespace Awds

open Std Awds.Lib

/-- `setPeriod`. The number of milliseconds is cut to 16 bits. -/
def Beacon.setPeriod (p : BasePacket) (d : Duration) : BasePacket :=
  p.write offsetPeriod (toBigEndian 2 (Int.tdiv d 1000000 % 2 ^ 16).toNat)

namespace AwdsRouting

/-- The loop of `calcMpr`. `tryRemoveFromMpr` answers true for every neighbour. The constructor
of `Beacon` sets the type of the last beacon. -/
def calcMprLoop : List NodeDescr → Result (List NodeDescr)
  | [] => .ok []
  | nd :: nds => match nd.lastBeacon with
    | none => .error .dangling
    | some beacon => do
      let nds ← calcMprLoop nds
      .ok ({ nd with lastBeacon := some (beacon.setType .beacon), mpr := true } :: nds)

/-- `calcMpr`. -/
def calcMpr (r : AwdsRouting) : Result AwdsRouting := do
  let nds ← calcMprLoop r.neighbors
  .ok { r with neighbors := nds }

/-- The signature of a beacon. It leaves nothing out. -/
def signBeacon (host : Host) (r : AwdsRouting) (p : BasePacket) : AwdsRouting × BasePacket :=
  match r.cryptoUnit with
  | none => (r, p)
  | some cu =>
    let (cu, buf) := cu.sign host.ccm p.buffer p.size []
    ({ r with cryptoUnit := some cu },
      { p with buffer := buf, size := p.size + cryptoLen })

end AwdsRouting

/-- `AwdsRouting` with what it sends beacons by. The first period is `BEACON_INTERVAL`. -/
structure BeaconRouting extends AwdsRouting where
  beaconSeq : UInt16 := 0
  beaconPeriod : Duration := .ofMillis 1400
  nextBeacon : AbsTime

namespace BeaconRouting

/-- The part of `send_beacon` in front of the signature. -/
def unsignedBeacon (host : Host) (b : BeaconRouting) : Result (BeaconRouting × BasePacket) := do
  let r ← b.toAwdsRouting.calcMpr
  let p := SrcPacket.setSrc (BasePacket.new.setType .beacon) host.myNodeId
  let p := SrcPacket.setSeq (Beacon.setNeigh r p) b.beaconSeq.toNat
  let p := Beacon.setPeriod p b.beaconPeriod
  .ok ({ b with toAwdsRouting := r, beaconSeq := b.beaconSeq + 1 }, p.setDest host.broadcastId)

/-- The part of `send_beacon` in front of `base->send`. -/
def makeBeacon (host : Host) (b : BeaconRouting) : Result (BeaconRouting × BasePacket) := do
  let (b, p) ← b.unsignedBeacon host
  let (r, p) := b.toAwdsRouting.signBeacon host p
  .ok ({ b with toAwdsRouting := r }, p)

/-- The loop at the end of `send_beacon`: the time of the next beacon after at most `n` tests. -/
def catchUp (clock : Clock) (b : BeaconRouting) (n : Nat) : Option AbsTime :=
  whileLoop (fun next => decide (next ≤ clock.lastEventTime)) (fun next => next + b.beaconPeriod)
    n b.nextBeacon

/-- `send_beacon` with at most `n` tests in its loop. The event of the next beacon is at
`nextBeacon`. -/
def sendBeacon (host : Host) (clock : Clock) (n : Nat) (b : BeaconRouting) :
    Result (BeaconRouting × BasePacket) := do
  let (b, p) ← b.makeBeacon host
  match b.catchUp clock n with
  | none => .error .diverges
  | some next => .ok ({ b with nextBeacon := next }, p)

end BeaconRouting

/-! ### The shell command -/

/-- What `beaconPeriod_command_fn` prints: the period in seconds times 1000, `Invalid value`,
`Setting period to`, or its usage. -/
inductive PeriodReply where
  | shown (d : Duration)
  | invalid (p : Int)
  | setting (p : Int)
  | usage
  deriving DecidableEq, Repr

/-- The value that `beaconPeriod_command_fn` returns. -/
def PeriodReply.ret : PeriodReply → Int
  | .shown _ | .setting _ => 0
  | .invalid _ | .usage => -1

/-- `beaconPeriod_command_fn`, on the `argc` arguments. -/
def BeaconRouting.beaconPeriodCommand (b : BeaconRouting) (argv : List (List UInt8)) :
    BeaconRouting × PeriodReply :=
  match argv with
  | [_, cmd] => if cmd = cStr "show" then (b, .shown (b.beaconPeriod * 1000)) else (b, .usage)
  | [_, cmd, ms] =>
    if cmd = cStr "set" then
      let p := atoi ms
      -- a negative period is not refused
      if p = 0 then (b, .invalid p) else ({ b with beaconPeriod := .ofMillis p }, .setting p)
    else (b, .usage)
  | _ => (b, .usage)

end Awds
