import Awds.Lib.Traced
import Awds.Routing.Neighbors
import Awds.Routing.Unicast

/-!
# `Awds.Routing.LengthTrace`: the lengths that are computed from the size of a packet

The receive functions once more, with the subtractions from `p->size` as events. A `size_t` that
falls below zero wraps. The functions then work on more bytes than the packet has, so they end
with an error, except for `write`: the kernel refuses the length.

`receive` is `recv_packet` up to the handlers of frames. The other handlers compute no lengths.
-/

set_option autoImplicit false

namespace Awds

open Std Awds.Lib

/-- The subtraction of `n` from a size. -/
structure Subtraction where
  size : Nat
  n : Nat
  deriving DecidableEq, Repr

/-- A part of a receive function with its subtractions. -/
abbrev Measured (α : Type) := Traced Subtraction Fault α

/-- The length `p->size - n`. -/
def BasePacket.sizeMinusTraced (p : BasePacket) (n : Nat) : Measured Nat := do
  Traced.emit [⟨p.size, n⟩]
  .lift (p.sizeMinus n)

namespace AwdsRouting

/-! ### Frames -/

/-- The `write` and what is behind it in both handlers of frames. -/
def writeFrameTraced (clock : Clock) (r : AwdsRouting) (p : BasePacket) (off : Nat) :
    Measured (AwdsRouting × BasePacket) := do
  Traced.emit [⟨p.size, off⟩]
  pure (r.writeFrame clock p off, p)

/-- The common part of the handlers of frames, for the header that ends at `off` and the blocks
`sg` of it that are authenticated. -/
def recvFrameTraced (host : Host) (clock : Clock) (r : AwdsRouting) (p : BasePacket) (off : Nat)
    (sg : List MemoryBlock) : Measured (AwdsRouting × BasePacket) :=
  match r.cryptoUnit with
  | none => r.writeFrameTraced clock p off
  | some cu => do
    let len ← p.sizeMinusTraced (cryptoLen + off)
    let (cu, buf, ok) ← .lift
      (cu.decryptDupDetect host.ccm (SrcPacket.getSrc p) p.buffer off len sg)
    let r := { r with cryptoUnit := some cu }
    let p := { p with buffer := buf }
    if !ok then pure (r, p)
    else do
      let size ← p.sizeMinusTraced cryptoLen
      r.writeFrameTraced clock { p with size := size } off

/-- `TapInterface::recv_broadcast`. -/
def recvBroadcastTraced (host : Host) (clock : Clock) (r : AwdsRouting) (p : BasePacket) :
    Measured (AwdsRouting × BasePacket) :=
  if SrcPacket.getSrc p = host.myNodeId then pure (r, p)
  else r.recvFrameTraced host clock p Flood.floodHeaderEnd extraSign

/-- `TapInterface::recv_unicast`. -/
def tapRecvUnicastTraced (host : Host) (clock : Clock) (r : AwdsRouting) (p : BasePacket) :
    Measured (AwdsRouting × BasePacket) :=
  r.recvFrameTraced host clock p UnicastPacket.unicastPacketEnd unicastExtraSign

/-! ### Signatures -/

/-- The check of the signature of a topo packet. -/
def checkSignatureTraced (host : Host) (r : AwdsRouting) (p : BasePacket) :
    Measured (AwdsRouting × BasePacket × Bool) :=
  match r.cryptoUnit with
  | none => pure (r, p, true)
  | some cu => do
    let len ← p.sizeMinusTraced cryptoLen
    let (cu, buf, ok) := cu.verifySignature host.ccm (SrcPacket.getSrc p) p.buffer len noSign
    pure ({ r with cryptoUnit := some cu }, { p with buffer := buf }, ok)

/-- The topo branch of `recv_flood`. -/
def handleTopoTraced (host : Host) (clock : Clock) (r : AwdsRouting) (p : BasePacket) :
    Measured (AwdsRouting × BasePacket × Bool) := do
  let (r, p, validPacket) ← r.checkSignatureTraced host p
  if !validPacket then pure (r, p, false)
  else do
    let t ← .lift (r.topology.feed host.toStation clock.lastEventTime p)
    pure ({ r with topology := t }, p, true)

/-- `recv_beacon`. -/
def recvBeaconTraced (host : Host) (clock : Clock) (r : AwdsRouting) (p : BasePacket) :
    Measured AwdsRouting :=
  let p := p.setType .beacon
  match r.cryptoUnit with
  | none => do
    let (r, _) ← .lift (r.refreshNeigh clock.lastEventTime p)
    pure r
  | some cu => do
    let len ← p.sizeMinusTraced cryptoLen
    let (cu, buf, ok) := cu.verifySignature host.ccm (SrcPacket.getSrc p) p.buffer len []
    let r := { r with cryptoUnit := some cu }
    if !ok then pure r
    else do
      let (r, _) ← .lift (r.refreshNeigh clock.lastEventTime { p with buffer := buf })
      pure r

/-! ### Packets -/

/-- The second part of `recv_flood`. -/
def handleFloodTraced (host : Host) (clock : Clock) (r : AwdsRouting) (p : BasePacket) :
    Measured (AwdsRouting × BasePacket × Bool) :=
  if Flood.getFloodType p = Flood.floodTypeTopo then r.handleTopoTraced host clock p
  else match r.broadcastRegister (Flood.getFloodType p) with
    | none => pure (r, p, true)
    | some .tap => do
      let (r, p) ← r.recvBroadcastTraced host clock p
      pure (r, p, true)
    | some .topoLock => do
      let r ← .lift (r.topolockRecv host clock p)
      pure (r, p, true)

/-- `recv_flood`. -/
def recvFloodTraced (host : Host) (clock : Clock) (r : AwdsRouting) (p : BasePacket) :
    Measured (AwdsRouting × Option BasePacket) :=
  let p := p.setType .flood
  let (r, admitted) := r.admitFlood p
  if !admitted then pure (r, none)
  else do
    let (r, p, valid) ← r.handleFloodTraced host clock p
    if !valid then pure (r, none)
    else do
      let sent ← .lift (r.relayFlood host p)
      pure (r, sent)

/-- A unicast packet at its destination. `tapLoaded` says whether the handler of frames is
registered. -/
def deliverTraced (host : Host) (clock : Clock) (tapLoaded : Bool) (r : AwdsRouting) :
    UnicastAction → Measured AwdsRouting
  | .deliver p =>
    if tapLoaded ∧ UnicastPacket.getUcPacketType p = TapInterface.protoNr then do
      let (r, _) ← r.tapRecvUnicastTraced host clock p
      pure r
    else pure r
  | _ => pure r

/-- `recv_packet`. -/
def receive (host : Host) (clock : Clock) (tapLoaded : Bool) (r : AwdsRouting) (p : BasePacket) :
    Measured AwdsRouting :=
  match r.recvPacket host p with
  | none => pure r
  | some .beacon => r.recvBeaconTraced host clock p
  | some .flood => do
    let (r, _) ← r.recvFloodTraced host clock p
    pure r
  | some .unicast => do
    let (r, action) ← .lift (r.recvUnicast host clock p)
    r.deliverTraced host clock tapLoaded action
  | some .forward => pure r

end AwdsRouting

end Awds
