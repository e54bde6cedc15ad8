import Awds.Lib.Bytes

/-!
# `Awds.Packet`: node identifiers, packets and their access classes

`NodeId` is the 48-bit number of `AbstractID<6>`; `fromArray` and `toArray` are its
big-endian byte form. `BasePacket` is the buffer with its `size`. The namespaces
`SrcPacket`, `Flood`, `TopoPacket`, `UnicastPacket`, `TraceUcPacket` and `FlowPacket` hold the
offsets and the accessors of the access classes of the same names; each accessor takes the
packet that the class wraps.

`BasePacket.Arrives` says what a station reads of a packet that another one has sent.

Bytes are `char`, which is signed on the platforms the daemon runs on. An accessor that
converts a `char` to `int` without a cast through `unsigned char` sign-extends it
(`signedByte`).

Times are nanoseconds. `Duration(n, 1000)` is `n` milliseconds.
-/

set_option autoImplicit false

namespace Awds

open Awds.Lib

/-- A station address, `awds::NodeId`. -/
abbrev NodeId := Fin (2 ^ 48)

instance NodeId.neZero : NeZero (2 ^ 48 : Nat) := ⟨by decide⟩

instance NodeId.transOrd : Std.TransOrd NodeId := inferInstance

namespace NodeId

/-- The number of bytes of an identifier in a packet. -/
abbrev size : Nat := 6

/-- `AbstractID<6>::fromArray`, on the six bytes it reads. -/
def fromArray (bs : List UInt8) : NodeId := Fin.ofNat _ (ofBigEndian bs)

/-- `AbstractID<6>::toArray`, the six bytes it writes. -/
def toArray (id : NodeId) : List UInt8 := toBigEndian size id.val

/-- An address has six bytes. -/
@[simp] theorem length_toArray (id : NodeId) : (toArray id).length = 6 := by
  simp [toArray]

/-- An identifier is kept by the way through its bytes. -/
@[simp] theorem fromArray_toArray (id : NodeId) : fromArray (toArray id) = id := by
  have hlt : (id : Nat) < 256 ^ 6 := id.isLt
  apply Fin.ext
  rw [fromArray, toArray, ofBigEndian_toBigEndian_of_lt hlt, Fin.val_ofNat]
  exact Nat.mod_eq_of_lt id.isLt

end NodeId

/-- A point in time, `gea::AbsTime`. -/
abbrev AbsTime := Int

/-- A span of time, `gea::Duration`. -/
abbrev Duration := Int

/-- `gea::Duration(ms, 1000)`. -/
def Duration.ofMillis (ms : Int) : Duration := ms * 1000000

/-- The value of a signed `char`. -/
def signedByte (b : UInt8) : Int := if b.toNat < 128 then b.toNat else b.toNat - 256

/-- The primary packet types. -/
inductive PacketType where
  | beacon
  | flood
  | unicast
  | forward
  deriving DecidableEq, Repr

/-- The code of a packet type in the two low bits of the first byte. -/
def PacketType.code : PacketType → UInt8
  | beacon => 0
  | flood => 1
  | unicast => 2
  | forward => 3

/-- The data of a packet. -/
structure BasePacket where
  buffer : Buffer
  size : Nat
  dest : NodeId

namespace BasePacket

/-- The maximum number of bytes per packet. -/
abbrev maxSize : Nat := 0x1000

/-- `new BasePacket()`: a zeroed buffer. -/
def new : BasePacket := { buffer := fun _ => 0, size := 0, dest := 0 }

/-- `getType`: the type is in the two low bits. -/
def getType (p : BasePacket) : PacketType :=
  match (p.buffer 0 &&& 3).toNat with
  | 0 => .beacon
  | 1 => .flood
  | 2 => .unicast
  | _ => .forward

/-- Writes a block of bytes. -/
def write (p : BasePacket) (off : Nat) (bs : List UInt8) : BasePacket :=
  { p with buffer := p.buffer.write off bs }

/-- `setType`: the other bits of the first byte stay. -/
def setType (p : BasePacket) (t : PacketType) : BasePacket :=
  p.write 0 [(p.buffer 0 &&& ~~~3) ||| t.code]

/-- `setDest`. -/
def setDest (p : BasePacket) (d : NodeId) : BasePacket := { p with dest := d }

/-- A write changes the buffer of a packet and not its size. -/
@[simp] theorem write_buffer (p : BasePacket) (off : Nat) (bs : List UInt8) :
    (p.write off bs).buffer = p.buffer.write off bs := rfl

/-- The packet `p` is what `receive` reads of the transmitted packet `q` into a zeroed buffer.
A device may pad a packet, with zeros or with what is behind the packet in its buffer. -/
structure Arrives (q p : BasePacket) : Prop where
  size : q.size ≤ p.size
  fits : p.size ≤ maxSize
  bytes : ∀ i, i < q.size → p.buffer i = q.buffer i
  padding : ∀ i, q.size ≤ i → p.buffer i = 0 ∨ p.buffer i = q.buffer i

/-- Setting the type that is already set changes nothing. -/
theorem setType_getType (p : BasePacket) : p.setType p.getType = p := by
  have hbyte : ∀ b : UInt8, (b &&& ~~~3) |||
      (match (b &&& 3).toNat with
        | 0 => PacketType.beacon
        | 1 => .flood
        | 2 => .unicast
        | _ => .forward).code = b := by decide +kernel
  have hwrite : p.buffer.write 0 [p.buffer 0] = p.buffer := by
    funext i
    cases i with
    | zero => rfl
    | succ i => exact Buffer.write_of_ge _ _ (by simp)
  unfold setType write getType
  rw [hbyte, hwrite]

end BasePacket

namespace SrcPacket

abbrev offsetSrc : Nat := 1
abbrev offsetSeq : Nat := offsetSrc + NodeId.size
abbrev srcPacketEnd : Nat := offsetSeq + 2

/-- `getSrc`. -/
def getSrc (p : BasePacket) : NodeId := .fromArray (p.buffer.read offsetSrc NodeId.size)

/-- `setSrc`. -/
def setSrc (p : BasePacket) (id : NodeId) : BasePacket := p.write offsetSrc id.toArray

/-- `getSeq`, a 16-bit number. -/
def getSeq (p : BasePacket) : Nat := ofBigEndian (p.buffer.read offsetSeq 2)

/-- `setSeq`. -/
def setSeq (p : BasePacket) (num : Nat) : BasePacket := p.write offsetSeq (toBigEndian 2 num)

/-- `setControlBit`. -/
def setControlBit (p : BasePacket) (bit : UInt8) (v : Bool) : BasePacket :=
  p.write 0 [(p.buffer 0 &&& ~~~(1 <<< bit)) ||| (v.toUInt8 <<< bit)]

/-- `getControlBit`. -/
def getControlBit (p : BasePacket) (bit : UInt8) : Bool := p.buffer 0 &&& (1 <<< bit) ≠ 0

/-- `setTraceFlag`. -/
def setTraceFlag (p : BasePacket) (v : Bool) : BasePacket := setControlBit p 7 v

/-- `getTraceFlag`. -/
def getTraceFlag (p : BasePacket) : Bool := getControlBit p 7

end SrcPacket

namespace Flood

abbrev offsetLastHop : Nat := SrcPacket.srcPacketEnd
abbrev offsetTTL : Nat := offsetLastHop + NodeId.size
abbrev offsetFloodType : Nat := offsetTTL + 1
abbrev floodHeaderEnd : Nat := offsetFloodType + 1

/-- `getTTL`, read as an unsigned byte. -/
def getTTL (p : BasePacket) : Nat := (p.buffer offsetTTL).toNat

/-- `setTTL`. -/
def setTTL (p : BasePacket) (ttl : Nat) : BasePacket := p.write offsetTTL [UInt8.ofNat ttl]

/-- `decrTTL`: the byte wraps at 0. -/
def decrTTL (p : BasePacket) : BasePacket := p.write offsetTTL [p.buffer offsetTTL - 1]

/-- `incTTL`: the byte wraps at 255. -/
def incTTL (p : BasePacket) : BasePacket := p.write offsetTTL [p.buffer offsetTTL + 1]

/-- `getLastHop`. -/
def getLastHop (p : BasePacket) : NodeId :=
  .fromArray (p.buffer.read offsetLastHop NodeId.size)

/-- `setLastHop`. -/
def setLastHop (p : BasePacket) (id : NodeId) : BasePacket :=
  p.write offsetLastHop id.toArray

/-- `getFloodType`: the `char` is converted to `int` directly. -/
def getFloodType (p : BasePacket) : Int := signedByte (p.buffer offsetFloodType)

/-- `setFloodType`. -/
def setFloodType (p : BasePacket) (ft : Nat) : BasePacket :=
  p.write offsetFloodType [UInt8.ofNat ft]

/-- `FloodTypeTopo`. -/
abbrev floodTypeTopo : Nat := 0

end Flood

namespace TopoPacket

abbrev offsetValidity : Nat := Flood.floodHeaderEnd
abbrev offsetNumLinks : Nat := offsetValidity + 4
abbrev offsetLinks : Nat := offsetNumLinks + 1

/-- The bytes of one link: the neighbour and a 16-bit quality. -/
abbrev linkSize : Nat := NodeId.size + 2

/-- `getNumLinks`. -/
def getNumLinks (p : BasePacket) : Nat := (p.buffer offsetNumLinks).toNat

/-- `getValidity`: a 32-bit number of milliseconds. -/
def getValidity (p : BasePacket) : Duration :=
  .ofMillis (ofBigEndian (p.buffer.read offsetValidity 4))

/-- `setValidity`: the argument is truncated to 32 bits. -/
def setValidity (p : BasePacket) (d : Nat) : BasePacket :=
  p.write offsetValidity (toBigEndian 4 d)

end TopoPacket

namespace UnicastPacket

abbrev offsetUcDest : Nat := SrcPacket.srcPacketEnd
abbrev offsetNextHop : Nat := offsetUcDest + NodeId.size
abbrev offsetTTL : Nat := offsetNextHop + NodeId.size
abbrev offsetUcType : Nat := offsetTTL + 1
abbrev unicastPacketEnd : Nat := offsetUcType + 1

/-- `getTTL`, read as an unsigned byte. -/
def getTTL (p : BasePacket) : Nat := (p.buffer offsetTTL).toNat

/-- `setTTL`. -/
def setTTL (p : BasePacket) (ttl : Nat) : BasePacket := p.write offsetTTL [UInt8.ofNat ttl]

/-- `decrTTL`: the byte wraps at 0. -/
def decrTTL (p : BasePacket) : BasePacket := p.write offsetTTL [p.buffer offsetTTL - 1]

/-- `incTTL`: the byte wraps at 255. -/
def incTTL (p : BasePacket) : BasePacket := p.write offsetTTL [p.buffer offsetTTL + 1]

/-- `getUcDest`. -/
def getUcDest (p : BasePacket) : NodeId := .fromArray (p.buffer.read offsetUcDest NodeId.size)

/-- `setUcDest`. -/
def setUcDest (p : BasePacket) (id : NodeId) : BasePacket := p.write offsetUcDest id.toArray

/-- `getNextHop`. -/
def getNextHop (p : BasePacket) : NodeId :=
  .fromArray (p.buffer.read offsetNextHop NodeId.size)

/-- `setNextHop`. -/
def setNextHop (p : BasePacket) (id : NodeId) : BasePacket :=
  p.write offsetNextHop id.toArray

/-- `getUcPacketType`, read as an unsigned byte. -/
def getUcPacketType (p : BasePacket) : Nat := (p.buffer offsetUcType).toNat

/-- `setUcPacketType`. -/
def setUcPacketType (p : BasePacket) (type : Nat) : BasePacket :=
  p.write offsetUcType [UInt8.ofNat type]

end UnicastPacket

namespace TraceUcPacket

abbrev offsetTraceEnd : Nat := UnicastPacket.unicastPacketEnd
abbrev traceUcPacketEnd : Nat := offsetTraceEnd + 2

/-- `getTracePointer`, a 16-bit number. -/
def getTracePointer (p : BasePacket) : Nat := ofBigEndian (p.buffer.read offsetTraceEnd 2)

/-- `setTracePointer`. -/
def setTracePointer (p : BasePacket) (offset : Nat) : BasePacket :=
  p.write offsetTraceEnd (toBigEndian 2 offset)

/-- `appendNode`. A packet without space for the node stays as it is. -/
def appendNode (p : BasePacket) (id : NodeId) : BasePacket :=
  let offset := getTracePointer p
  if offset + NodeId.size ≥ p.size then p
  else setTracePointer (p.write offset id.toArray) (offset + NodeId.size)

end TraceUcPacket

namespace FlowPacket

abbrev offsetFlowDest : Nat := SrcPacket.srcPacketEnd
abbrev offsetFlowId : Nat := offsetFlowDest + NodeId.size
abbrev offsetFlowType : Nat := offsetFlowId + 4
abbrev flowPacketEnd : Nat := offsetFlowType + 4

/-- `getFlowId`. -/
def getFlowId (p : BasePacket) : UInt32 := .ofNat (ofBigEndian (p.buffer.read offsetFlowId 4))

/-- `setFlowId`. -/
def setFlowId (p : BasePacket) (flowid : UInt32) : BasePacket :=
  p.write offsetFlowId (toBigEndian 4 flowid.toNat)

/-- `getFlowDest`. -/
def getFlowDest (p : BasePacket) : NodeId :=
  .fromArray (p.buffer.read offsetFlowDest NodeId.size)

/-- `setFlowDest`. -/
def setFlowDest (p : BasePacket) (id : NodeId) : BasePacket := p.write offsetFlowDest id.toArray

/-- `getFlowType`. -/
def getFlowType (p : BasePacket) : UInt32 :=
  .ofNat (ofBigEndian (p.buffer.read offsetFlowType 4))

end FlowPacket

end Awds
