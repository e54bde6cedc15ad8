import Awds.Kernel.State

/-!
# `Awds.Kernel.Packets`: the packet handler of the kernel module

`awdsPacketRcv` gets every packet of the AWDS protocol. It counts the packet, tries to hand a
unicast packet for this node to the local device or to forward one for another node, and
gives the rest to the socket of the daemon. `Verdict` says which of these happens.

`RcvEnv` holds the clock and the calls of the kernel that can fail. A packet that
`dev_queue_xmit` or `netif_rx_ni` refuses has been freed, and so has one that `awds_send`
refuses because the device is down. The handler goes on with it in each of these cases:
`Oops.useAfterFree`.

`awds_packet_rcv` does not take `awds_instance_mutex`; the line that did is commented out.
-/

set_option autoImplicit false

namespace Awds.Kernel

open Awds.Lib

/-! ### Packets and constants -/

/-- `struct sk_buff`: the payload `data` with its length, and the Ethernet header in front of
it. -/
structure SkBuff where
  protocol : Nat
  dev : DevPtr
  ethDest : List UInt8
  ethSrc : List UInt8
  data : Buffer
  len : Nat

/-- `ETH_P_AWDS`. -/
abbrev ethPAwds : Nat := 0x8334

abbrev awdsHlen : Nat := 23
abbrev awdsDestOffset : Nat := 9
abbrev awdsNexthopOffset : Nat := 15
abbrev awdsTtlOffset : Nat := 21
abbrev awdsFloodtypeOffset : Nat := 17

/-- The packet types and the flood types of the module. -/
abbrev packetBeacon : UInt8 := 0
abbrev packetFlood : UInt8 := 1
abbrev packetUnicast : UInt8 := 2
abbrev packetForeward : UInt8 := 3
abbrev floodPacketTopo : UInt8 := 0
abbrev floodPacketMcast : UInt8 := 1
abbrev floodPacketPriv : UInt8 := 2

/-- `AWDS_LOCAL_CONFIG` and `AWDS_FORWARD_CONFIG`. -/
abbrev awdsLocalConfig : UInt16 := 1
abbrev awdsForwardConfig : UInt16 := 2

/-- `MAX_AWDS_UC_INTERVAL`, in seconds. -/
abbrev maxAwdsUcInterval : Int := 15

/-- The clock `CURRENT_TIME_SEC` and the calls that can fail. -/
structure RcvEnv where
  now : Int
  kmallocOk : Bool := true
  sendOk : Bool := true
  netifRxOk : Bool := true
  queueOk : Bool := true

/-! ### Statistics -/

/-- The flood type in `awds_count_packet`. -/
def AwdsPacketStatistic.countFlood (s : AwdsPacketStatistic) (skb : SkBuff) :
    AwdsPacketStatistic :=
  -- the byte at the offset is one behind the bytes that are checked
  if skb.len ≥ awdsFloodtypeOffset then
    let t := skb.data awdsFloodtypeOffset
    if t = floodPacketTopo then { s with rxFloodTopo := s.rxFloodTopo + 1 }
    else if t = floodPacketMcast then { s with rxFloodMcast := s.rxFloodMcast + 1 }
    else if t = floodPacketPriv then { s with rxFloodPrivate := s.rxFloodPrivate + 1 }
    else s
  else s

/-- `awds_count_packet`. The first byte is compared with the types as a whole. -/
def AwdsPacketStatistic.awdsCountPacket (s : AwdsPacketStatistic) (skb : SkBuff) :
    AwdsPacketStatistic :=
  if skb.len < ethAlen + 3 then s
  else
    let s := { s with rxTotalPackets := s.rxTotalPackets + 1 }
    let t := skb.data 0
    if t = packetBeacon then { s with rxTotalBeacon := s.rxTotalBeacon + 1 }
    else if t = packetFlood then
      { s with rxTotalFlood := s.rxTotalFlood + 1 }.countFlood skb
    else if t = packetUnicast then { s with rxTotalUnicast := s.rxTotalUnicast + 1 }
    else if t = packetForeward then { s with rxTotalForeward := s.rxTotalForeward + 1 }
    else s

/-- `awds_get_packet_type`. -/
def SkBuff.awdsGetPacketType (skb : SkBuff) : Int :=
  if skb.len < ethAlen + 3 then -1 else (skb.data 0).toNat

/-! ### The routing table -/

namespace AwdsModule

/-- Reads an entry of `awds_routing`. -/
def routingEntry (m : AwdsModule) (i : Nat) : KResult AwdsRoutingEntry :=
  match m.awdsRouting with
  | none => .error .nullPointer
  | some table => match table[i]? with
    | none => .error .outOfBounds
    | some e => .ok e

/-- The binary search of `__awds_check_routing`, at most `n` turns. -/
def searchLoop (m : AwdsModule) (dest : List UInt8) :
    Nat → Nat → Nat → KResult (Option AwdsRoutingEntry)
  | 0, _, _ => .error .diverges
  | n + 1, head, stop =>
    if head = stop then .ok none
    else do
      -- prevent integer overflow
      let mid := head + (stop - head) / 2
      let e ← m.routingEntry mid
      match memcmp e.dest dest with
      | .eq => .ok (some e)
      | .lt => searchLoop m dest n (mid + 1) stop
      | .gt => searchLoop m dest n head mid

/-- `__awds_check_routing`. The bounds close in on each other, so a search with more turns
than entries does not end. -/
def awdsCheckRoutingLocked (m : AwdsModule) (skb : SkBuff) :
    KResult (Option AwdsRoutingEntry) :=
  if m.awdsRoutingCount = 0 then .ok none
  else m.searchLoop (skb.data.read awdsDestOffset ethAlen) (m.awdsRoutingCount + 1) 0
    m.awdsRoutingCount

end AwdsModule

/-! ### Forwarding -/

/-- The part of `__awds_do_retransmit` in front of `awds_send`: the packet with a smaller TTL
and the new addresses. A TTL of 1 is an error, which leaves the packet as it is. -/
def SkBuff.awdsDoRetransmitLocked (skb : SkBuff) (e : AwdsRoutingEntry) : Option SkBuff :=
  let ttl := skb.data awdsTtlOffset - 1
  if ttl = 0 then none
  else some { skb with
    data := (skb.data.write awdsTtlOffset [ttl]).write awdsNexthopOffset e.nexthop
    ethSrc := skb.ethDest
    ethDest := e.nexthop }

/-! ### Local delivery -/

namespace UcDestTable

/-- Whether an entry is too old. -/
def tooOld (now : Int) (e : UcDest) : Prop := now - e.time - maxAwdsUcInterval > 0

instance (now : Int) (e : UcDest) : Decidable (tooOld now e) :=
  inferInstanceAs (Decidable (_ > _))

/-- The loop of `awds_check_unicast_table`: the entries in front of the address that are not
too old, and those from the address on. -/
def scan (now : Int) (mac : List UInt8) : List UcDest → List UcDest × List UcDest
  | [] => ([], [])
  | e :: es =>
    if e.mac = mac then ([], e :: es)
    else
      let (front, rest) := scan now mac es
      (if tooOld now e then front else e :: front, rest)

/-- Whether the loop frees the first entry. `sk->table` still points to it then. -/
def freesHead (now : Int) (mac : List UInt8) : List UcDest → Bool
  | [] => false
  | e :: _ => decide (e.mac ≠ mac) && decide (tooOld now e)

/-- `awds_check_unicast_table`. The flag says whether the packet may go to the local device.
The insertion reads the first entry of a table that is not empty. -/
def awdsCheckUnicastTable (t : UcDestTable) (env : RcvEnv) (skb : SkBuff) :
    KResult (UcDestTable × Bool) :=
  if skb.len < awdsHlen + ethAlen then .ok (t, false)
  else if t.freed then .error .useAfterFree
  else
    let mac := skb.data.read awdsHlen ethAlen
    let freed := freesHead env.now mac t.entries
    match scan env.now mac t.entries with
    | (front, e :: es) =>
      -- too old, force update in user space
      if tooOld env.now e then
        .ok ({ entries := front ++ { e with time := env.now } :: es, freed := freed }, false)
      else .ok ({ entries := front ++ e :: es, freed := freed }, true)
    | (front, []) =>
      if freed then .error .useAfterFree
      else if !env.kmallocOk then .ok ({ entries := front }, false)
      else .ok ({ entries := { mac := mac, time := env.now } :: front }, false)

end UcDestTable

/-- `__awds_do_local_retransmit`: the frame without the AWDS header, and the device that gets
it. -/
def SkBuff.awdsDoLocalRetransmitLocked (net : Net) (env : RcvEnv) (skb : SkBuff) :
    KResult (Option (DevPtr × List UInt8)) :=
  match net.devGetbyhwaddr (skb.data.read awdsHlen ethAlen) with
  | none => .ok none
  | some dev =>
    if !env.netifRxOk then .error .useAfterFree
    else .ok (some (dev, skb.data.read awdsHlen (skb.len - awdsHlen)))

/-! ### The handler -/

/-- What becomes of a packet. -/
inductive Verdict where
  | ignored
  | freed
  | delivered (dev : DevPtr) (frame : List UInt8)
  | retransmitted (skb : SkBuff)
  | queued (sk : SockPtr) (skb : SkBuff)

namespace AwdsModule

/-- The first part of the unicast case of `awds_packet_rcv`: the local device. -/
def tryLocal (net : Net) (env : RcvEnv) (m : AwdsModule) (sk : SockPtr) (own : Bool)
    (skb : SkBuff) : KResult (AwdsModule × Option (DevPtr × List UInt8)) :=
  if own && decide (m.configuration &&& awdsLocalConfig ≠ 0) then do
    let (t, allowed) ← (m.socks sk).table.awdsCheckUnicastTable env skb
    let m := m.setSock sk { m.socks sk with table := t }
    if !allowed then .ok (m, none)
    else match ← skb.awdsDoLocalRetransmitLocked net env with
      | none => .ok (m, none)
      | some frame =>
        .ok (if m.statistics then
          { m with awdsStats :=
              { m.awdsStats with rxLocalUnicast := m.awdsStats.rxLocalUnicast + 1 } }
          else m, some frame)
  else .ok (m, none)

/-- The second part of the unicast case: forwarding. The table is searched in any case. -/
def tryForward (env : RcvEnv) (m : AwdsModule) (own : Bool) (skb : SkBuff) :
    KResult (AwdsModule × Option SkBuff) := do
  match ← m.awdsCheckRoutingLocked skb with
  | none => .ok (m, none)
  | some e =>
    if !own && decide (m.configuration &&& awdsForwardConfig ≠ 0) then
      match skb.awdsDoRetransmitLocked e with
      | none => .ok (m, none)
      | some skb =>
        if !env.sendOk then .error .useAfterFree
        else .ok (if m.statistics then
          { m with awdsStats :=
              { m.awdsStats with rxForwardedUnicast := m.awdsStats.rxForwardedUnicast + 1 } }
          else m, some skb)
    else .ok (m, none)

/-- The end of `awds_packet_rcv`: the packet goes to the daemon. -/
def passUp (env : RcvEnv) (sk : SockPtr) (skb : SkBuff) : Verdict :=
  if env.queueOk then .queued sk skb else .freed

/-- The unicast case of `awds_packet_rcv`, for the instance `p`. -/
def rcvUnicast (net : Net) (env : RcvEnv) (m : AwdsModule) (p : InstancePtr) (sk : SockPtr)
    (skb : SkBuff) : KResult (AwdsModule × Verdict) := do
  let (m, interface?) ← m.awdsFindInterface p skb.dev
  match interface? with
  | none => .error .nullPointer
  | some ptr => do
    let i ← m.iface ptr
    -- check if we are the AWDS destination of this packet
    let own := decide (memcmp i.addr.saAddr (skb.data.read awdsDestOffset ethAlen) = .eq)
    let (m, frame?) ← m.tryLocal net env sk own skb
    match frame? with
    | some (dev, frame) => .ok (m, .delivered dev frame)
    | none => do
      let (m, sent?) ← m.tryForward env own skb
      match sent? with
      | some sent => .ok (m, .retransmitted sent)
      | none => .ok (m, passUp env sk skb)

/-- `awds_packet_rcv`. -/
def awdsPacketRcv (net : Net) (env : RcvEnv) (m : AwdsModule) (skb : SkBuff) :
    KResult (AwdsModule × Verdict) :=
  if skb.protocol ≠ ethPAwds then .ok (m, .ignored)
  else do
    let (m, instance?) ← m.awdsFindInstanceByDevLocked skb.dev
    match instance? with
    | none => .ok (m, .freed)
    | some p => do
      let m := if m.statistics then { m with awdsStats := m.awdsStats.awdsCountPacket skb } else m
      let sk ← m.sockOf p
      if skb.awdsGetPacketType = packetUnicast.toNat then m.rcvUnicast net env p sk skb
      else .ok (m, passUp env sk skb)

end AwdsModule

end Awds.Kernel
