import Awds.Routing.State

/-!
# `Awds.Routing.Operations`: flood packets

The functions of `AwdsRouting.cc` that create, receive and pass on flood packets, with the
broadcast handlers of `TapInterface.cc` and `TopoLock.cc` and the sending of topo packets.

`recvFlood` works on the packet in place: the handler of a broadcast packet gets the same
packet that is sent on afterwards. It is cut into three parts. `admitFlood` drops packets
that were seen before and enters the others into the history, `handleFlood` gives the packet
to the topology or to its handler, and `relayFlood` sends it on. The result is the packet
that `base->send` gets, if it is called.

A length that is computed as `p->size - n` wraps if the packet is shorter than `n` bytes,
and the accesses with it leave the buffer: `BasePacket.sizeMinus`.

`recvPacket` only says which of the receive functions `recv_packet` calls. The others,
`recv_beacon`, `recv_unicast` and `sendFlowPacket`, do not touch the history of floods.
-/

set_option autoImplicit false

namespace Awds

open Std Awds.Lib

/-- The length `p->size - n`. -/
def BasePacket.sizeMinus (p : BasePacket) (n : Nat) : Result Nat :=
  if p.size < n then .error .outOfBounds else .ok (p.size - n)

namespace AwdsRouting

/-! ### Broadcast handlers -/

/-- The part of a flood packet that a signature leaves out: `LastHop` and the TTL. -/
def noSign : List MemoryBlock := [⟨Flood.offsetLastHop, NodeId.size + 1⟩]

/-- The part of the header of a broadcast packet that is authenticated. -/
def extraSign : List MemoryBlock := [⟨0, 3 + NodeId.size⟩, ⟨Flood.offsetFloodType, 1⟩]

/-- The end of `TapInterface::recv_broadcast` and `recv_unicast`: the frame, which begins at
`off`, goes to the device and its source to the MAC table. The kernel refuses a length that
has wrapped. -/
def writeFrame (clock : Clock) (r : AwdsRouting) (p : BasePacket) (off : Nat) : AwdsRouting :=
  let frames := if p.size < off then [] else [p.buffer.read off (p.size - off)]
  let tap := { r.tap with written := r.tap.written ++ frames }
  { r with
    tap := tap.storeSrcAndMac (SrcPacket.getSrc p) p.buffer off clock.lastEventTime }

/-- `TapInterface::recv_broadcast`. The packet is decrypted in place. -/
def recvBroadcast (host : Host) (clock : Clock) (r : AwdsRouting) (p : BasePacket) :
    Result (AwdsRouting × BasePacket) :=
  let srcId := SrcPacket.getSrc p
  if srcId = host.myNodeId then .ok (r, p)
  else match r.cryptoUnit with
    | none => .ok (r.writeFrame clock p Flood.floodHeaderEnd, p)
    | some cu => do
      let len ← p.sizeMinus (cryptoLen + Flood.floodHeaderEnd)
      let (cu, buf, ok) ← cu.decryptDupDetect host.ccm srcId p.buffer Flood.floodHeaderEnd len
        extraSign
      let r := { r with cryptoUnit := some cu }
      let p := { p with buffer := buf }
      -- a packet that is refused has lost its frame all the same
      if !ok then .ok (r, p)
      else
        let p := { p with size := p.size - cryptoLen }
        .ok (r.writeFrame clock p Flood.floodHeaderEnd, p)

/-- `TopoLock::topolock_recv`. -/
def topolockRecv (host : Host) (clock : Clock) (r : AwdsRouting) (p : BasePacket) :
    Result AwdsRouting :=
  let cmd := p.buffer Flood.floodHeaderEnd
  if cmd = 0 then .ok { r with topology := { r.topology with locked := true } }
  else if cmd = 1 then .ok { r with topology := { r.topology with locked := false } }
  else if cmd = 2 then do
    let t ← r.topology.reset host.toStation clock.lastEventTime clock.wallClock
    .ok { r with topology := { t with locked := false } }
  else .ok r

/-! ### Receiving flood packets -/

/-- The first part of `recv_flood`: the check for duplicates, the entry in the history and
the check of the TTL. The flag says whether the packet goes on. -/
def admitFlood (r : AwdsRouting) (p : BasePacket) : AwdsRouting × Bool :=
  let srcId := SrcPacket.getSrc p
  let srcSeq := SrcPacket.getSeq p
  if r.floodHistory.contains srcId srcSeq then (r, false)
  else
    -- the packet is remembered before anything else is known about it
    ({ r with floodHistory := r.floodHistory.insert srcId srcSeq },
      decide (Flood.getTTL p ≠ 0))

/-- The check of the signature of a topo packet. -/
def checkSignature (host : Host) (r : AwdsRouting) (p : BasePacket) :
    Result (AwdsRouting × BasePacket × Bool) :=
  match r.cryptoUnit with
  | none => .ok (r, p, true)
  | some cu => do
    -- the size stays: the 32 bytes behind the packet are sent on with it
    let len ← p.sizeMinus cryptoLen
    let (cu, buf, ok) := cu.verifySignature host.ccm (SrcPacket.getSrc p) p.buffer len noSign
    .ok ({ r with cryptoUnit := some cu }, { p with buffer := buf }, ok)

/-- The topo branch of `recv_flood`. The flag says whether the signature is valid. -/
def handleTopo (host : Host) (clock : Clock) (r : AwdsRouting) (p : BasePacket) :
    Result (AwdsRouting × BasePacket × Bool) := do
  let (r, p, validPacket) ← r.checkSignature host p
  if !validPacket then .ok (r, p, false)
  else do
    let t ← r.topology.feed host.toStation clock.lastEventTime p
    .ok ({ r with topology := t }, p, true)

/-- The second part of `recv_flood`. The flag says whether the packet goes on. -/
def handleFlood (host : Host) (clock : Clock) (r : AwdsRouting) (p : BasePacket) :
    Result (AwdsRouting × BasePacket × Bool) :=
  if Flood.getFloodType p = Flood.floodTypeTopo then r.handleTopo host clock p
  else match r.broadcastRegister (Flood.getFloodType p) with
    -- an unknown flood type is sent on
    | none => .ok (r, p, true)
    | some .tap => do
      let (r, p) ← r.recvBroadcast host clock p
      .ok (r, p, true)
    | some .topoLock => do
      let r ← r.topolockRecv host clock p
      .ok (r, p, true)

/-- Whether the last hop of a packet has listed this station as a neighbour that need not
repeat its packets. -/
def silencedBy (host : Host) (r : AwdsRouting) (lastHop : NodeId) : Result Bool :=
  let nIdx := r.findNeigh lastHop
  if nIdx < 0 then .ok false
  else match r.neighbors[nIdx.toNat]? with
    | none => .error .outOfBounds
    | some nd => match nd.lastBeacon with
      | none => .error .dangling
      | some beacon => Beacon.hasNoMpr beacon host.myNodeId

/-- The last part of `recv_flood`. -/
def relayFlood (host : Host) (r : AwdsRouting) (p : BasePacket) : Result (Option BasePacket) := do
  if ← r.silencedBy host (Flood.getLastHop p) then .ok none
  else
    -- LastHop is used for the MPR mechanism.
    let p := Flood.decrTTL (Flood.setLastHop p host.myNodeId)
    if Flood.getTTL p = 0 then .ok none
    else .ok (some (p.setDest host.broadcastId))

/-- `recv_flood`, with the packet that is sent on. -/
def recvFlood (host : Host) (clock : Clock) (r : AwdsRouting) (p : BasePacket) :
    Result (AwdsRouting × Option BasePacket) :=
  let p := p.setType .flood
  let (r, admitted) := r.admitFlood p
  if !admitted then .ok (r, none)
  else do
    let (r, p, valid) ← r.handleFlood host clock p
    if !valid then .ok (r, none)
    else do
      let sent ← r.relayFlood host p
      .ok (r, sent)

/-- Whether the firewall, if there is one, lets a packet through. -/
def passesFirewall (r : AwdsRouting) (p : BasePacket) : Bool :=
  match r.firewall with
  | none => true
  | some checkPacket => checkPacket p

/-- `recv_packet`: which receive function gets the packet, if any. -/
def recvPacket (host : Host) (r : AwdsRouting) (p : BasePacket) : Option PacketType :=
  if r.passesFirewall p ∧ SrcPacket.getSrc p ≠ host.myNodeId then some p.getType else none

/-! ### Sending flood packets -/

/-- `sendBroadcast`. The TTL is increased by one because `recvFlood` decreases it. -/
def sendBroadcast (host : Host) (clock : Clock) (r : AwdsRouting) (p : BasePacket) :
    Result (AwdsRouting × Option BasePacket) :=
  r.recvFlood host clock (Flood.incTTL (p.setType .flood))

/-- `newFloodPacket`. -/
def newFloodPacket (host : Host) (r : AwdsRouting) (floodType : Nat) :
    AwdsRouting × BasePacket :=
  let p := BasePacket.new.setType .flood
  let p := SrcPacket.setSrc p host.myNodeId
  let p := Flood.setLastHop p host.myNodeId
  let p := Flood.setFloodType p floodType
  let p := Flood.setTTL p 32
  let p := SrcPacket.setSeq p r.floodSeq.toNat
  ({ r with floodSeq := r.floodSeq + 1 }, p.setDest host.broadcastId)

/-- The encryption of a frame of `len` bytes at `off` in both branches of
`TapInterface::tap_recv`. The blocks `sg` of the header are authenticated. -/
def encryptFrame (host : Host) (r : AwdsRouting) (p : BasePacket) (off len : Nat)
    (sg : List MemoryBlock) : Result (AwdsRouting × BasePacket) :=
  match r.cryptoUnit with
  | none => .ok (r, p)
  | some cu => do
    let (cu, buf) ← cu.encrypt host.ccm p.buffer off len sg
    .ok ({ r with cryptoUnit := some cu },
      { p with buffer := buf, size := p.size + cryptoLen })

/-- The broadcast branch of `TapInterface::tap_recv`, on the frame read from the device. -/
def tapRecvBroadcast (host : Host) (clock : Clock) (r : AwdsRouting) (frame : List UInt8) :
    Result (AwdsRouting × Option BasePacket) := do
  let (r, p) := r.newFloodPacket host TapInterface.protoNr
  let p := { p.write Flood.floodHeaderEnd frame with
    size := Flood.floodHeaderEnd + frame.length }
  let (r, p) ← r.encryptFrame host p Flood.floodHeaderEnd frame.length extraSign
  r.sendBroadcast host clock p

/-! ### Topo packets -/

/-- The bytes of one link in a topo packet. -/
def linkBytes (r : AwdsRouting) (nd : NodeDescr) : List UInt8 :=
  nd.id.toArray ++ toBigEndian 2 (r.getQuality nd).toNat

/-- The loop of `TopoPacket::setNeigh`, with the number of links and the address behind
them. The counter `n` is an `unsigned char`. -/
def writeLinks (host : Host) (r : AwdsRouting) : List NodeDescr → UInt8 → Nat → BasePacket →
    Result (UInt8 × Nat × BasePacket)
  | [], n, addr, p => .ok (n, addr, p)
  | nd :: nds, n, addr, p => do
    -- only links that work in both directions are announced
    if ← nd.isBidiGood host.myNodeId then
      writeLinks host r nds (n + 1) (addr + TopoPacket.linkSize) (p.write addr (r.linkBytes nd))
    else writeLinks host r nds n addr p

/-- `TopoPacket::setNeigh`. -/
def setNeigh (host : Host) (r : AwdsRouting) (p : BasePacket) : Result BasePacket := do
  let (n, addr, p) ← r.writeLinks host r.neighbors 0 TopoPacket.offsetLinks p
  let len := min r.nodeName.length 32
  let p := p.write addr [UInt8.ofNat len]
  let p := p.write (addr + 1) (r.nodeName.take len)
  let p := p.write TopoPacket.offsetNumLinks [n]
  .ok { p with size := TopoPacket.offsetLinks + TopoPacket.linkSize * n.toNat + len + 1 }

/-- The loop of `isqrt`, over the squared bits. -/
def isqrtLoop : Nat → Nat → Nat → Nat
  | 0, _, root => root
  | n + 1, remainder, root =>
    let squaredbit := 4 ^ n
    if remainder ≥ squaredbit ||| root then
      isqrtLoop n (remainder - (squaredbit ||| root)) ((root >>> 1) ||| squaredbit)
    else isqrtLoop n remainder (root >>> 1)

/-- `isqrt`. The first squared bit is the bit 62 of a `long`. -/
def isqrt (x : Nat) : Nat := if x < 1 then 0 else isqrtLoop 32 x 0

/-- The new period of an adaptive station with `n` nodes. -/
def adaptivePeriod (n : Nat) : Result Int :=
  if isqrt (n * 16) = 0 then .error .divisionByZero
  else
    let newPeriod : Nat := (200 * n * n * 4) / isqrt (n * 16)
    -- the bound is above the value it is meant to bound
    let maxNewPeriod := newPeriod + newPeriod / 5
    .ok (Int.bmod (min newPeriod maxNewPeriod) (2 ^ 32))

/-- The period of topo packets behind the adaptive step of `send_topo`. -/
def nextTopoPeriod (r : AwdsRouting) : Result Int :=
  match r.topoPeriodType with
  | .constant => .ok r.topoPeriodMs
  | .adaptive => adaptivePeriod r.topology.adjList.size

/-- The signature of a topo packet. -/
def signTopo (host : Host) (r : AwdsRouting) (p : BasePacket) : AwdsRouting × BasePacket :=
  match r.cryptoUnit with
  | none => (r, p)
  | some cu =>
    let (cu, buf) := cu.sign host.ccm p.buffer p.size noSign
    ({ r with cryptoUnit := some cu },
      { p with buffer := buf, size := p.size + cryptoLen })

/-- The part of `send_topo` in front of the signature. -/
def unsignedTopo (host : Host) (r : AwdsRouting) : Result (AwdsRouting × BasePacket) := do
  let (r, p) := r.newFloodPacket host Flood.floodTypeTopo
  let p ← r.setNeigh host p
  let period ← r.nextTopoPeriod
  -- a topo packet is valid for three periods
  let r := { r with topoPeriodMs := period }
  .ok (r, TopoPacket.setValidity p ((3 * period) % 2 ^ 32).toNat)

/-- The part of `send_topo` in front of `sendBroadcast`. -/
def makeTopo (host : Host) (r : AwdsRouting) : Result (AwdsRouting × BasePacket) := do
  let (r, p) ← r.unsignedTopo host
  .ok (r.signTopo host p)

/-- `send_topo`. -/
def sendTopo (host : Host) (clock : Clock) (r : AwdsRouting) :
    Result (AwdsRouting × Option BasePacket) := do
  let (r, p) ← r.makeTopo host
  r.sendBroadcast host clock p

end AwdsRouting

end Awds
