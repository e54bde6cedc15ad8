import Awds.Kernel.Packets
import Awds.Lib.Traced

/-!
# `Awds.Kernel.BufferTrace`: what the packet handler does with the packet buffer

The handler of `Awds.Kernel.Packets` once more, with the accesses to the buffer as events. A
call of the kernel that fails does not end this handler, so its trace also has what it does with
a buffer that is gone: `netif_rx_ni` and `dev_queue_xmit` consume a buffer whatever they return,
and `sock_queue_rcv_skb` only if it succeeds.

`RcvCalls` holds the values these calls return. `eth_type_trans` reads the header of the frame;
which of its bytes, is a parameter.
-/

set_option autoImplicit false

namespace Awds.Kernel

open Awds.Lib

/-- An access to a packet buffer. `read` and `write` are accesses to a byte of `skb->data`,
`touch` is one to a field of the `sk_buff` or to the Ethernet header. The others hand the buffer
over: to `dev_queue_xmit`, `netif_rx_ni`, `sock_queue_rcv_skb` and `kfree_skb`. -/
inductive SkbEvent where
  | read (off : Nat)
  | write (off : Nat)
  | touch
  | transmitted
  | injected
  | queued
  | freed
  deriving DecidableEq, Repr

/-- The buffer belongs to someone else, or to no one, behind the event. -/
def SkbEvent.consumes : SkbEvent → Bool
  | transmitted | injected | queued | freed => true
  | _ => false

/-- The clock `CURRENT_TIME_SEC` and what the calls of the kernel return: `kmalloc`,
the flag `IFF_UP` of the device, `dev_queue_xmit`, `netif_rx_ni` and `sock_queue_rcv_skb`.
`ethTypeTrans` has the bytes of the frame that `eth_type_trans` reads. -/
structure RcvCalls where
  now : Int
  kmallocOk : Bool := true
  devUp : Bool := true
  devQueueXmit : Int := 0
  netifRxNi : Int := 0
  sockQueueRcvSkb : Int := 0
  ethTypeTrans : List Nat := []

namespace RcvCalls

abbrev enetdown : Int := 100

/-- `net_xmit_errno`. The code for congestion, 2, is no error. -/
def netXmitErrno (e : Int) : Int := if e = 2 then 0 else -enobufs

/-- What `awds_send` returns. -/
def sendErr (calls : RcvCalls) : Int :=
  if !calls.devUp then -enetdown
  else if calls.devQueueXmit > 0 then netXmitErrno calls.devQueueXmit
  else calls.devQueueXmit

/-- Which calls succeed. -/
def env (calls : RcvCalls) : RcvEnv where
  now := calls.now
  kmallocOk := calls.kmallocOk
  sendOk := decide (calls.sendErr = 0)
  netifRxOk := decide (calls.netifRxNi = 0)
  queueOk := decide (calls.sockQueueRcvSkb = 0)

end RcvCalls

/-- A part of the handler with its accesses to the buffer. -/
abbrev SkbTraced (α : Type) := Traced SkbEvent Oops α

/-- Accesses without a result. -/
abbrev access (es : List SkbEvent) : SkbTraced Unit := Traced.emit es

/-- Reads `n` bytes. -/
def readBytes (off n : Nat) : List SkbEvent := (List.range n).map fun i => .read (off + i)

/-- Writes `n` bytes. -/
def writeBytes (off n : Nat) : List SkbEvent := (List.range n).map fun i => .write (off + i)

/-! ### The parts of the handler -/

/-- `awds_count_packet`. -/
def AwdsPacketStatistic.awdsCountPacketTraced (s : AwdsPacketStatistic) (skb : SkBuff) :
    SkbTraced AwdsPacketStatistic := do
  access [.touch]
  if skb.len < ethAlen + 3 then pure s
  else do
    access [.read 0]
    access (if skb.data 0 = packetFlood ∧ skb.len ≥ awdsFloodtypeOffset then
      [.read awdsFloodtypeOffset] else [])
    pure (s.awdsCountPacket skb)

/-- `awds_get_packet_type`. -/
def SkBuff.awdsGetPacketTypeTraced (skb : SkBuff) : SkbTraced Int := do
  access (if skb.len < ethAlen + 3 then [.touch] else [.touch, .read 0])
  pure skb.awdsGetPacketType

/-- `__awds_check_routing`. -/
def AwdsModule.awdsCheckRoutingTraced (m : AwdsModule) (skb : SkBuff) :
    SkbTraced (Option AwdsRoutingEntry) := do
  access (if m.awdsRoutingCount = 0 then [] else readBytes awdsDestOffset ethAlen)
  .lift (m.awdsCheckRoutingLocked skb)

/-- `awds_check_unicast_table`. The address in the frame is compared with that of an entry, or
copied into a new one. -/
def UcDestTable.awdsCheckUnicastTableTraced (t : UcDestTable) (calls : RcvCalls) (skb : SkBuff) :
    SkbTraced (UcDestTable × Bool) := do
  access [.touch]
  access (if awdsHlen + ethAlen ≤ skb.len ∧ (t.entries ≠ [] ∨ calls.kmallocOk) then
    readBytes awdsHlen ethAlen else [])
  .lift (t.awdsCheckUnicastTable calls.env skb)

/-- `__awds_do_local_retransmit`. -/
def SkBuff.awdsDoLocalRetransmitTraced (net : Net) (calls : RcvCalls) (skb : SkBuff) :
    SkbTraced (Option (DevPtr × List UInt8)) := do
  access (readBytes awdsHlen ethAlen)
  match net.devGetbyhwaddr (skb.data.read awdsHlen ethAlen) with
  | none => pure none
  | some dev => do
    -- remove AWDS header from packet, copy the protocol from the ethernet packet
    access (.touch :: calls.ethTypeTrans.map fun i => .read (awdsHlen + i))
    access [.injected]
    if calls.netifRxNi = 0 then pure (some (dev, skb.data.read awdsHlen (skb.len - awdsHlen)))
    else do
      -- sending failed, undo changes
      access [.touch]
      pure none

/-- `awds_send`, with the error. -/
def awdsSendTraced (calls : RcvCalls) : SkbTraced Int := do
  access [.touch, if calls.devUp then .transmitted else .freed]
  pure calls.sendErr

/-- `__awds_do_retransmit`. -/
def SkBuff.awdsDoRetransmitTraced (calls : RcvCalls) (skb : SkBuff) (e : AwdsRoutingEntry) :
    SkbTraced (Option SkBuff) := do
  access [.read awdsTtlOffset]
  match skb.awdsDoRetransmitLocked e with
  | none => pure none
  | some sent => do
    access (.write awdsTtlOffset :: .touch :: writeBytes awdsNexthopOffset ethAlen)
    let err ← awdsSendTraced calls
    pure (if err = 0 then some sent else none)

namespace AwdsModule

/-! ### The handler -/

/-- The first part of the unicast case of `awds_packet_rcv`: the local device. -/
def tryLocalTraced (net : Net) (calls : RcvCalls) (m : AwdsModule) (sk : SockPtr) (own : Bool)
    (skb : SkBuff) : SkbTraced (AwdsModule × Option (DevPtr × List UInt8)) :=
  if own && decide (m.configuration &&& awdsLocalConfig ≠ 0) then do
    let (t, allowed) ← (m.socks sk).table.awdsCheckUnicastTableTraced calls skb
    let m := m.setSock sk { m.socks sk with table := t }
    if !allowed then pure (m, none)
    else do
      let frame? ← skb.awdsDoLocalRetransmitTraced net calls
      match frame? with
      | none => pure (m, none)
      | some frame =>
        pure (if m.statistics then
          { m with awdsStats :=
              { m.awdsStats with rxLocalUnicast := m.awdsStats.rxLocalUnicast + 1 } }
          else m, some frame)
  else pure (m, none)

/-- The second part of the unicast case: forwarding. -/
def tryForwardTraced (calls : RcvCalls) (m : AwdsModule) (own : Bool) (skb : SkBuff) :
    SkbTraced (AwdsModule × Option SkBuff) := do
  let entry? ← m.awdsCheckRoutingTraced skb
  match entry? with
  | none => pure (m, none)
  | some e =>
    if !own && decide (m.configuration &&& awdsForwardConfig ≠ 0) then do
      let sent? ← skb.awdsDoRetransmitTraced calls e
      match sent? with
      | none => pure (m, none)
      | some sent =>
        pure (if m.statistics then
          { m with awdsStats :=
              { m.awdsStats with rxForwardedUnicast := m.awdsStats.rxForwardedUnicast + 1 } }
          else m, some sent)
    else pure (m, none)

/-- The end of `awds_packet_rcv`: the packet goes to the daemon. -/
def passUpTraced (calls : RcvCalls) (sk : SockPtr) (skb : SkBuff) : SkbTraced Verdict := do
  access (if calls.sockQueueRcvSkb = 0 then [.queued] else [.touch, .freed])
  pure (passUp calls.env sk skb)

/-- The unicast case of `awds_packet_rcv` behind the lookup of the interface, whose address is
`addr`. -/
def deliverTraced (net : Net) (calls : RcvCalls) (m : AwdsModule) (sk : SockPtr)
    (addr : List UInt8) (skb : SkBuff) : SkbTraced (AwdsModule × Verdict) := do
  -- check if we are the AWDS destination of this packet
  access (readBytes awdsDestOffset ethAlen)
  let own := decide (memcmp addr (skb.data.read awdsDestOffset ethAlen) = .eq)
  let (m, frame?) ← m.tryLocalTraced net calls sk own skb
  match frame? with
  | some (dev, frame) => pure (m, .delivered dev frame)
  | none => do
    let (m, sent?) ← m.tryForwardTraced calls own skb
    match sent? with
    | some sent => pure (m, .retransmitted sent)
    | none => do
      let v ← passUpTraced calls sk skb
      pure (m, v)

/-- The unicast case of `awds_packet_rcv`, for the instance `p`. -/
def rcvUnicastTraced (net : Net) (calls : RcvCalls) (m : AwdsModule) (p : InstancePtr)
    (sk : SockPtr) (skb : SkBuff) : SkbTraced (AwdsModule × Verdict) := do
  let (m, interface?) ← .lift (m.awdsFindInterface p skb.dev)
  match interface? with
  | none => .lift (.error .nullPointer)
  | some ptr => do
    let i ← .lift (m.iface ptr)
    m.deliverTraced net calls sk i.addr.saAddr skb

/-- The statistics in `awds_packet_rcv`. -/
def countTraced (m : AwdsModule) (skb : SkBuff) : SkbTraced AwdsModule :=
  if m.statistics then do
    let s ← m.awdsStats.awdsCountPacketTraced skb
    pure { m with awdsStats := s }
  else pure m

/-- `awds_packet_rcv`. -/
def awdsPacketRcvTraced (net : Net) (calls : RcvCalls) (m : AwdsModule) (skb : SkBuff) :
    SkbTraced (AwdsModule × Verdict) := do
  access [.touch]
  if skb.protocol ≠ ethPAwds then pure (m, .ignored)
  else do
    let (m, instance?) ← .lift (m.awdsFindInstanceByDevLocked skb.dev)
    match instance? with
    | none => do
      access [.freed]
      pure (m, .freed)
    | some p => do
      let m ← m.countTraced skb
      let sk ← .lift (m.sockOf p)
      let type ← skb.awdsGetPacketTypeTraced
      if type = packetUnicast.toNat then m.rcvUnicastTraced net calls p sk skb
      else do
        let v ← passUpTraced calls sk skb
        pure (m, v)

end AwdsModule

end Awds.Kernel
