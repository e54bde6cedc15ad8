import Awds.Producers
import Awds.Proofs.Crypto.Writes
import Awds.Proofs.Routing.BeaconPeriod
import Awds.Proofs.Routing.PathTrace

/-!
# `Awds.Proofs.Producers`: the sizes of the packets that a station makes

The packets that a station makes of its own tables and of frames fit into a packet: a beacon lists
40 neighbours at most, the number of links in a topo packet is a byte, and a frame has at most
3000 bytes. The copies that an encryption makes behind the packet fit too. The packets whose size
the user gives are as large as that. Nothing compares it with the size of the buffer.

`sent_fits_iff` is the main result. On the way to `base->send` a packet gets no longer
(`sendBroadcast_size`, `sendAway_size`).
-/

set_option autoImplicit false

namespace Awds.Proofs

open Awds.Lib Awds.AwdsRouting Awds.AesCcmCryptoUnit

variable {host : Host} {clock : Clock} {r r' : AwdsRouting} {p p' q : BasePacket}
  {b b' : BeaconRouting}

/-! ### The traced crypto unit -/

/-- Recording the writes of the signature changes nothing about its result. -/
theorem signBeaconTraced_result (host : Host) (r : AwdsRouting) (p : BasePacket) :
    (r.signBeaconTraced host p).result = .ok (r.signBeacon host p) := by
  unfold signBeaconTraced signBeacon
  cases r.cryptoUnit with
  | none => rfl
  | some cu => exact Traced.result_bind_of_ok (signTraced_result _ _ _ _ _)

/-- The same for the signature of a topo packet. -/
theorem signTopoTraced_result (host : Host) (r : AwdsRouting) (p : BasePacket) :
    (r.signTopoTraced host p).result = .ok (r.signTopo host p) := by
  unfold signTopoTraced signTopo
  cases r.cryptoUnit with
  | none => rfl
  | some cu => exact Traced.result_bind_of_ok (signTraced_result _ _ _ _ _)

/-- As long as the copies of the authenticated blocks fit into the packet. -/
theorem encryptFrameTraced_result {off len : Nat} {sg : List MemoryBlock}
    (h : off + len + cryptoLen + (sg.map MemoryBlock.size).sum ≤ BasePacket.maxSize) :
    (r.encryptFrameTraced host p off len sg).result = r.encryptFrame host p off len sg := by
  unfold encryptFrameTraced encryptFrame
  cases r.cryptoUnit with
  | none => rfl
  | some cu =>
    rw [Traced.result_bind, encryptTraced_result _ _ _ h]
    rfl

/-- What is done to the result of a sequence is done to that of its end. -/
theorem map_bind_result {α β γ : Type} (x : Result α) (f : α → Result β) (g : β → γ) :
    (x >>= f).map g = x >>= fun a => (f a).map g := by
  cases x with
  | error e => rfl
  | ok a => rfl

/-- The producer of beacons sends what `makeBeacon` makes. -/
theorem makeBeacon_result (host : Host) (clock : Clock) (sizes : NativeSizes)
    (strtodEnd : List UInt8 → Option (List UInt8)) (b : BeaconRouting) :
    (Producer.beacon.run host clock sizes strtodEnd b).result
      = (b.makeBeacon host).map fun x => some x.2 := by
  unfold Producer.run BeaconRouting.makeBeacon
  simp only [Traced.result_bind, Traced.result_lift, signBeaconTraced_result, map_bind_result]
  rfl

/-- The recorded `send_topo` sends what the plain one sends. -/
theorem sendTopoTraced_result (host : Host) (clock : Clock) (r : AwdsRouting) :
    (r.sendTopoTraced host clock).result = (r.sendTopo host clock).map Prod.snd := by
  unfold sendTopoTraced sendTopo makeTopo
  simp only [Traced.result_bind, Traced.result_lift, signTopoTraced_result, map_bind_result,
    bind_assoc]
  rfl

/-- What `tapRecv` sends. -/
def tapSent : Option BasePacket ⊕ UnicastAction → Option BasePacket
  | .inl o => o
  | .inr action => sent action

/-- For the frames that the buffer of `tap_recv` can have. -/
theorem tapRecvTraced_result (host : Host) (clock : Clock) (r : AwdsRouting) {frame : List UInt8}
    (h : frame.length ≤ TapInterface.frameBufferSize) :
    (TapInterface.tapRecvTraced host clock r frame).result
      = (TapInterface.tapRecv host clock r frame).map fun x => tapSent x.2 := by
  have hlen : frame.length ≤ 3000 := h
  unfold TapInterface.tapRecvTraced TapInterface.tapRecv
  dsimp only
  rw [List.take_of_length_le h]
  -- No station is known for the destination: the frame is flooded.
  cases r.tap.getNodeForMacAddress (frame.take NodeId.size) clock.lastEventTime with
  | none =>
    have hroom : Flood.floodHeaderEnd + frame.length + cryptoLen +
        (extraSign.map MemoryBlock.size).sum ≤ BasePacket.maxSize := by
      show 17 + frame.length + 32 + 10 ≤ 4096
      omega
    unfold tapRecvBroadcastTraced tapRecvBroadcast
    dsimp only
    rw [Traced.result_bind, encryptFrameTraced_result hroom]
    simp only [bind_assoc, map_bind_result, Traced.result_bind, Traced.result_lift]
    rfl
  -- The frame goes to the one station that has the address.
  | some destNode =>
    have hroom : UnicastPacket.unicastPacketEnd + frame.length + cryptoLen +
        (unicastExtraSign.map MemoryBlock.size).sum ≤ BasePacket.maxSize := by
      show 23 + frame.length + 32 + 16 ≤ 4096
      omega
    unfold tapRecvUnicastFrame tapRecvUnicast unicastFrame sendAway
    dsimp only
    rw [Traced.result_bind, encryptFrameTraced_result hroom]
    simp only [bind_assoc, map_bind_result, Traced.result_lift]
    rfl

/-! ### On the way to `base->send` -/

/-- A broadcast packet may lose the 32 bytes of the crypto unit. -/
theorem recvBroadcast_size (h : r.recvBroadcast host clock p = .ok (r', p')) :
    p'.size ≤ p.size := by
  unfold recvBroadcast at h
  dsimp only at h
  split at h
  · cases h
    exact Nat.le_refl _
  split at h
  · cases h
    exact Nat.le_refl _
  · obtain ⟨len, -, h⟩ := bind_eq_ok.mp h
    obtain ⟨⟨cu, buf, ok⟩, -, h⟩ := bind_eq_ok.mp h
    dsimp only at h
    split at h
    · cases h
      exact Nat.le_refl _
    · cases h
      exact Nat.sub_le _ _

/-- What `handleFlood` accepts is not longer than what it got: it only strips the signature, and the
handler of topo packets keeps the size. -/
theorem handleFlood_size (h : r.handleFlood host clock p = .ok (r', p', true)) :
    p'.size ≤ p.size := by
  unfold handleFlood at h
  split at h
  · rw [(handleTopo_keeps h).1 rfl]
  split at h
  · cases h
    exact Nat.le_refl _
  · obtain ⟨⟨r₁, p₁⟩, hbc, h⟩ := bind_eq_ok.mp h
    cases h
    exact recvBroadcast_size hbc
  · obtain ⟨r₁, -, h⟩ := bind_eq_ok.mp h
    cases h
    exact Nat.le_refl _

/-- A flood that is sent on is not longer than the packet that came in. -/
theorem sendBroadcast_size (h : r.sendBroadcast host clock p = .ok (r', some q)) :
    q.size ≤ p.size := by
  obtain ⟨-, p', hhandle, hrelay⟩ := recvFlood_sent h
  obtain ⟨rfl, -⟩ := relayFlood_sent hrelay
  have hsize := handleFlood_size hhandle
  exact hsize

/-- A command to lock the topology has one byte behind the header. -/
theorem topoLockPacket_size {argv : List String}
    (h : topoLockPacket host clock r argv = .ok (some q)) :
    q.size ≤ Flood.floodHeaderEnd + 1 := by
  unfold topoLockPacket at h
  dsimp only at h
  split at h
  · cases h
  · obtain ⟨⟨r₁, o⟩, hsend, h⟩ := bind_eq_ok.mp h
    cases h
    exact sendBroadcast_size hsend

/-- A packet that is sent towards its destination keeps its size. -/
theorem sendAway_size (h : r.sendAway host clock p = .ok (some q)) : q.size = p.size := by
  obtain ⟨⟨r', action⟩, hsend, h⟩ := bind_eq_ok.mp h
  cases action with
  | drop => cases h
  | deliver s => cases h
  | send s =>
    cases h
    obtain ⟨-, hop, rfl⟩ := recvUnicast_send hsend
    exact passed_size _ _

/-- A probe has the size it was asked for, but is never shorter than its header. -/
theorem sendProbe_size {sizes : NativeSizes} {probe : Probe} {dest : NodeId}
    (h : UCastMetric.sendProbe host sizes r probe dest = some q) :
    q.size = max (UCMetricPacket.metricHeaderEnd sizes) (sizeT probe.packetSize) := by
  unfold UCastMetric.sendProbe UCastMetric.sendvia sendUnicastVia at h
  dsimp only at h
  split at h
  · cases h
  · cases h
    -- a metric packet may have a trace
    split
    · exact appendNode_size _ _
    · rfl

/-! ### Beacons and topo packets -/

/-- The loop of `calcMpr` marks entries and neither adds nor removes one. -/
theorem calcMprLoop_length {nds nds' : List NodeDescr} (h : calcMprLoop nds = .ok nds') :
    nds'.length = nds.length := by
  induction nds generalizing nds' with
  | nil =>
    cases h
    rfl
  | cons nd nds ih =>
    rw [calcMprLoop] at h
    split at h
    · cases h
    · obtain ⟨rest, hrest, h⟩ := bind_eq_ok.mp h
      cases h
      rw [List.length_cons, List.length_cons, ih hrest]

/-- A beacon lists a neighbour once at most. -/
theorem unsignedBeacon_size (h : b.unsignedBeacon host = .ok (b', p)) :
    p.size ≤ Beacon.offsetLNeigh + b.neighbors.length * NodeId.size := by
  obtain ⟨r, hmpr, h⟩ := bind_eq_ok.mp h
  obtain ⟨nds, hloop, hmpr⟩ := bind_eq_ok.mp hmpr
  cases hmpr
  cases h
  have hlen := length_listOf { b.toAwdsRouting with neighbors := nds }
  show (Beacon.setNeigh { b.toAwdsRouting with neighbors := nds } _).size ≤ _
  rw [setNeigh_size, ← calcMprLoop_length hloop]
  exact Nat.add_le_add_left (Nat.mul_le_mul_right _ hlen) _

/-- The number of links in a topo packet is a byte, and a name has 32 bytes at most. -/
theorem unsignedTopo_size (h : r.unsignedTopo host = .ok (r', p)) :
    TopoPacket.offsetLinks ≤ p.size ∧
      p.size ≤ TopoPacket.offsetLinks + TopoPacket.linkSize * 255 + 33 := by
  obtain ⟨s, hneigh, h⟩ := bind_eq_ok.mp h
  obtain ⟨period, -, h⟩ := bind_eq_ok.mp h
  cases h
  obtain ⟨⟨n, addr, p₁⟩, -, hneigh⟩ := bind_eq_ok.mp hneigh
  cases hneigh
  have hn : n.toNat < 256 := n.toNat_lt
  have hsize : TopoPacket.offsetLinks + 8 * n.toNat + min r.nodeName.length 32 + 1 ≤
      TopoPacket.offsetLinks + 8 * 255 + 33 := by omega
  refine ⟨?_, hsize⟩
  show TopoPacket.offsetLinks ≤ TopoPacket.offsetLinks + 8 * n.toNat +
    min r.nodeName.length 32 + 1
  omega

/-! ### Signed and encrypted packets -/

/-- A write within the buffer of a packet. -/
def InPacket (e : BufferWrite) : Prop := e.off + e.size ≤ BasePacket.maxSize

/-- The packet that is sent is no longer than the buffer. -/
def SizeFits (o : Option BasePacket) : Prop := ∀ q, o = some q → q.size ≤ BasePacket.maxSize

/-- A signed packet is longer by 32 bytes, and nothing is written behind these. -/
theorem signBeacon_ensures (h : p.size + cryptoLen ≤ BasePacket.maxSize) :
    (r.signBeaconTraced host p).Ensures InPacket fun x => x.2.size ≤ BasePacket.maxSize := by
  unfold signBeaconTraced
  cases r.cryptoUnit with
  | none => exact Traced.ensures_pure ((Nat.le_add_right _ _).trans h)
  | some cu =>
    have hbelow : WritesBelow BasePacket.maxSize (cu.signTraced host.ccm p.buffer p.size []) :=
      (sign_below (by simp)).mono h
    exact Traced.Ensures.bind ⟨hbelow, fun _ _ => trivial⟩ fun _ _ => Traced.ensures_pure h

/-- The signature of a topo packet stays within the buffer when there is room for it behind the
packet. -/
theorem signTopo_ensures (hheader : TopoPacket.offsetLinks ≤ p.size)
    (h : p.size + cryptoLen ≤ BasePacket.maxSize) :
    (r.signTopoTraced host p).Ensures InPacket fun x => x.2.size ≤ BasePacket.maxSize := by
  unfold signTopoTraced
  cases r.cryptoUnit with
  | none => exact Traced.ensures_pure ((Nat.le_add_right _ _).trans h)
  | some cu =>
    -- what is not signed lies in the header
    have hblocks : ∀ b ∈ noSign, b.p + b.size ≤ p.size := by
      intro b hb
      rw [List.mem_singleton.mp hb]
      exact le_trans (by decide) hheader
    have hbelow : WritesBelow BasePacket.maxSize
        (cu.signTraced host.ccm p.buffer p.size noSign) := (sign_below hblocks).mono h
    exact Traced.Ensures.bind ⟨hbelow, fun _ _ => trivial⟩ fun _ _ => Traced.ensures_pure h

/-- The copies of the authenticated blocks have to fit behind an encrypted packet. -/
theorem encryptFrame_ensures {off len : Nat} {sg : List MemoryBlock} (hsize : p.size = off + len)
    (h : off + len + cryptoLen + (sg.map MemoryBlock.size).sum ≤ BasePacket.maxSize) :
    (r.encryptFrameTraced host p off len sg).Ensures InPacket
      fun x => x.2.size ≤ BasePacket.maxSize := by
  have hlen : p.size + cryptoLen ≤ BasePacket.maxSize := by omega
  unfold encryptFrameTraced
  cases r.cryptoUnit with
  | none => exact Traced.ensures_pure ((Nat.le_add_right _ _).trans hlen)
  | some cu =>
    have hbelow : WritesBelow BasePacket.maxSize
        (cu.encryptTraced host.ccm p.buffer off len sg) := encrypt_below.mono h
    exact Traced.Ensures.bind ⟨hbelow, fun _ _ => trivial⟩ fun _ _ => Traced.ensures_pure hlen

/-- A packet that fits is still one that fits when it is sent. -/
theorem sendBroadcast_ensures (h : p.size ≤ BasePacket.maxSize) :
    (Traced.lift (r.sendBroadcast host clock p) : Written _).Ensures InPacket
      fun x => SizeFits x.2 := by
  refine Traced.ensures_lift fun x hx q hq => ?_
  obtain ⟨r', o⟩ := x
  cases hq
  exact (sendBroadcast_size hx).trans h

/-- Sending a packet towards its destination writes nothing, so only its size is asked for. -/
theorem sendAway_ensures (h : p.size ≤ BasePacket.maxSize) :
    (Traced.lift (r.sendAway host clock p) : Written _).Ensures InPacket SizeFits := by
  refine Traced.ensures_lift fun o ho q hq => ?_
  rw [hq] at ho
  exact (sendAway_size ho).trans_le h

/-- A topo packet. -/
theorem sendTopo_ensures (host : Host) (clock : Clock) (r : AwdsRouting) :
    (r.sendTopoTraced host clock).Ensures InPacket SizeFits := by
  have hunsigned : (Traced.lift (r.unsignedTopo host) : Written _).Ensures InPacket fun x =>
      TopoPacket.offsetLinks ≤ x.2.size ∧ x.2.size + cryptoLen ≤ BasePacket.maxSize := by
    refine Traced.ensures_lift fun x hx => ?_
    obtain ⟨hheader, hsize⟩ := unsignedTopo_size hx
    exact ⟨hheader, (Nat.add_le_add_right hsize _).trans (by decide)⟩
  refine hunsigned.bind fun x hx => ?_
  refine (signTopo_ensures hx.1 hx.2).bind fun y hy => ?_
  exact (sendBroadcast_ensures hy).bind fun z hz => Traced.ensures_pure hz

/-- A packet with a frame. -/
theorem tapRecv_ensures (host : Host) (clock : Clock) (r : AwdsRouting) (bytes : List UInt8) :
    (TapInterface.tapRecvTraced host clock r bytes).Ensures InPacket SizeFits := by
  have hread : (bytes.take TapInterface.frameBufferSize).length ≤ 3000 := List.length_take_le _ _
  unfold TapInterface.tapRecvTraced
  dsimp only
  generalize bytes.take TapInterface.frameBufferSize = frame at hread
  split
  · refine (encryptFrame_ensures rfl ?_).bind fun y hy => ?_
    · show 17 + frame.length + 32 + 10 ≤ 4096
      omega
    · exact (sendBroadcast_ensures hy).bind fun z hz => Traced.ensures_pure hz
  · refine (encryptFrame_ensures rfl ?_).bind fun y hy => sendAway_ensures hy
    show 23 + frame.length + 32 + 16 ≤ 4096
    omega

/-- A beacon of a station with 40 neighbours at most. -/
theorem beacon_ensures (hlen : b.neighbors.length ≤ maxNeighbors) (host : Host) (clock : Clock)
    (sizes : NativeSizes) (strtodEnd : List UInt8 → Option (List UInt8)) :
    (Producer.beacon.run host clock sizes strtodEnd b).Ensures InPacket SizeFits := by
  have hunsigned : (Traced.lift (b.unsignedBeacon host) : Written _).Ensures InPacket fun x =>
      x.2.size + cryptoLen ≤ BasePacket.maxSize := by
    refine Traced.ensures_lift fun x hx => ?_
    have hforty : maxNeighbors = 40 := rfl
    have hsize : x.2.size ≤ 13 + b.neighbors.length * 6 := unsignedBeacon_size hx
    show x.2.size + 32 ≤ 4096
    omega
  refine hunsigned.bind fun x hx => (signBeacon_ensures hx).bind fun y hy => ?_
  refine Traced.ensures_pure fun q hq => ?_
  cases hq
  exact hy

/-! ### Sizes that the user gives -/

/-- One of the sizes that a packet can have, or zero. -/
def IsSize (n : Int) : Prop := 0 ≤ n ∧ n ≤ BasePacket.maxSize

/-- A `long` as a `size_t` is no larger than a packet exactly if it is a size. A negative one is
far larger. -/
theorem sizeT_le_iff {n : Int} (h : -2 ^ 63 ≤ n ∧ n < 2 ^ 63) :
    sizeT n ≤ BasePacket.maxSize ↔ IsSize n := by
  have hmax : BasePacket.maxSize = 4096 := rfl
  unfold sizeT IsSize
  omega

/-- The configured size of a metric packet is an `int` or an `unsigned int`. -/
theorem packetSize_range (probe : Probe) :
    -2 ^ 63 ≤ probe.packetSize ∧ probe.packetSize < 2 ^ 63 := by
  cases probe with
  | rtt n =>
    have hlt := n.toNat_lt
    show -2 ^ 63 ≤ (n.toNat : Int) ∧ (n.toNat : Int) < 2 ^ 63
    omega
  | tt n =>
    have hlt := n.toNat_lt
    show -2 ^ 63 ≤ (n.toNat : Int) ∧ (n.toNat : Int) < 2 ^ 63
    omega
  | pktPair second n =>
    have hlo := n.le_toInt
    have hhi := n.toInt_lt
    show -2 ^ 63 ≤ n.toInt ∧ n.toInt < 2 ^ 63
    omega
  | response => decide

/-- `strtol` cuts a number to a `long`. -/
theorem strtol_range {s rest : List UInt8} {n : Int} (h : strtol s = some (n, rest)) :
    -2 ^ 63 ≤ n ∧ n < 2 ^ 63 := by
  unfold strtol at h
  dsimp only at h
  split at h
  · cases h
  · cases h
    unfold toLong
    split
    · omega
    · omega

/-- The number behind the last `-s`, or `size` if there is none. -/
def requestedSize : Int → List (List UInt8) → Int
  | size, [] => size
  | size, arg :: args =>
    if arg = cStr "-s" then
      match args with
      | [] => size
      | v :: args => requestedSize (((strtol v).map Prod.fst).getD size) args
    else if arg = cStr "-i" ∨ arg = cStr "-t" then
      match args with
      | [] => size
      | _ :: args => requestedSize size args
    else requestedSize size args

/-- Behind `-s` the next argument is the size. -/
theorem requestedSize_size (size : Int) (v : List UInt8) (args : List (List UInt8)) :
    requestedSize size (cStr "-s" :: v :: args)
      = requestedSize (((strtol v).map Prod.fst).getD size) args := if_pos rfl

/-- The argument behind `-i` or `-t` is a value and is not looked at. -/
theorem requestedSize_value {arg : List UInt8} (h : arg = cStr "-i" ∨ arg = cStr "-t") (size : Int)
    (v : List UInt8) (args : List (List UInt8)) :
    requestedSize size (arg :: v :: args) = requestedSize size args := by
  have hne : arg ≠ cStr "-s" := by
    rcases h with rfl | rfl
    · decide
    · decide
  exact (if_neg hne).trans (if_pos h)

/-- Any other argument asks for no size. -/
theorem requestedSize_other {arg : List UInt8} (hs : arg ≠ cStr "-s") (hi : arg ≠ cStr "-i")
    (ht : arg ≠ cStr "-t") (size : Int) (args : List (List UInt8)) :
    requestedSize size (arg :: args) = requestedSize size args := by
  have hvalue : ¬(arg = cStr "-i" ∨ arg = cStr "-t") := not_or.mpr ⟨hi, ht⟩
  cases args with
  | nil => exact (if_neg hs).trans (if_neg hvalue)
  | cons v args => exact (if_neg hs).trans (if_neg hvalue)

/-- The number that is read is a `long`. -/
theorem requestedSize_range {size : Int} (h : -2 ^ 63 ≤ size ∧ size < 2 ^ 63)
    (args : List (List UInt8)) :
    -2 ^ 63 ≤ requestedSize size args ∧ requestedSize size args < 2 ^ 63 := by
  fun_induction requestedSize size args with
  | case1 | case2 | case4 => exact h
  | case3 size v args ih =>
    refine ih ?_
    cases hv : strtol v with
    | none => exact h
    | some x => exact strtol_range hv
  | case5 size arg args v hs hvalue ih => exact ih h
  | case6 size arg args hs hvalue ih => exact ih h

section Ping

variable {strtodEnd : List UInt8 → Option (List UInt8)} {args : List (List UInt8)}
  {pinger pinger' : Pinger} {destName destName' : Option (List UInt8)}

/-- The loop of `parse_opts` takes the number behind the last `-s` whatever it is. -/
theorem parseArgs_size {n : Int}
    (h : Pinger.parseArgs strtodEnd args pinger destName = some (pinger', destName'))
    (hn : pinger.pingSize = sizeT n) : pinger'.pingSize = sizeT (requestedSize n args) := by
  fun_induction Pinger.parseArgs strtodEnd args pinger destName generalizing n with
  | case1 pinger destName =>
    cases h
    exact hn
  | case2 args pinger destName ih =>
    rw [requestedSize_other (by decide) (by decide) (by decide)]
    exact ih h hn
  | case4 pinger destName v args m hm _ ih =>
    -- the size of before is gone
    rw [requestedSize_size, hm]
    exact ih h rfl
  | case7 pinger destName v args _ _ _ ih =>
    rw [requestedSize_value (.inl rfl)]
    exact ih h hn
  | case10 pinger destName v args m _ _ _ _ ih =>
    rw [requestedSize_value (.inr rfl)]
    exact ih h hn
  | case13 arg args pinger _ hs hi ht ih =>
    rw [requestedSize_other hs hi ht]
    exact ih h hn
  | case3 | case5 | case6 | case8 | case9 | case11 | case12 => cases h

/-- `parse_opts` keeps the last size that the user gave, as a `size_t`. -/
theorem parseOpts_size {adj : AdjList} (h : Pinger.parseOpts strtodEnd adj args = some pinger) :
    pinger.pingSize = sizeT (requestedSize 200 args) := by
  unfold Pinger.parseOpts at h
  split at h
  · rename_i pinger' destName hparse
    obtain ⟨dest, -, rfl⟩ := Option.map_eq_some_iff.mp h
    have hsize : pinger'.pingSize = sizeT (requestedSize 200 args) :=
      parseArgs_size hparse (by decide)
    exact hsize
  · cases h

/-- The ping has the size of the `Pinger`, but is never shorter than its header. -/
theorem nextPing_size (host : Host) (r : AwdsRouting) (pinger : Pinger) (stamp : List UInt8) :
    (pinger.nextPing host r stamp).2.size = max pinger.pingSize Pinger.pingHeaderEnd := by
  unfold Pinger.nextPing
  dsimp only
  split
  · rfl
  · rfl

end Ping

/-- The packet of `Traffic::send` is as large as the settings say. -/
theorem trafficSend_size {t : Traffic} {pCount pSize : Int} {d : NodeId}
    (h : t.send host clock r pCount pSize d = .ok (some q)) :
    q.size = sizeT (t.setUp pCount pSize d).packetSize := by
  unfold Traffic.send at h
  split at h
  · cases h
  dsimp only at h
  split at h
  · cases h
  · obtain ⟨⟨top, hop, found⟩, -, h⟩ := bind_eq_ok.mp h
    dsimp only at h
    split at h
    · cases h
    · exact sendAway_size h

/-! ### All packets -/

/-- The size that the user gives is that of a packet, and so is that of the header of a metric
packet. `Traffic` keeps the size of its first call. The other packets have no such size. -/
def RequestFits (sizes : NativeSizes) : Producer → Prop
  | .ping _ args _ => IsSize (requestedSize 200 args)
  | .metric probe _ =>
    UCMetricPacket.metricHeaderEnd sizes ≤ BasePacket.maxSize ∧ IsSize probe.packetSize
  | .traffic t pCount pSize d => sizeT (t.setUp pCount pSize d).packetSize ≤ BasePacket.maxSize
  | _ => True

/-- Take a station with 40 neighbours at most, any crypto unit and anything that it makes a packet
from. Signing and encrypting writes within the buffer of the packet. The packet that `base->send`
gets, if there is one, fits into the buffer if and only if the size that the user gives does. -/
theorem sent_fits_iff (host : Host) (clock : Clock) (sizes : NativeSizes)
    (strtodEnd : List UInt8 → Option (List UInt8)) (b : BeaconRouting)
    (hlen : b.neighbors.length ≤ maxNeighbors) (producer : Producer) :
    (∀ e ∈ (producer.run host clock sizes strtodEnd b).events,
      e.off + e.size ≤ BasePacket.maxSize) ∧
    ∀ q, (producer.run host clock sizes strtodEnd b).result = .ok (some q) →
      (q.size ≤ BasePacket.maxSize ↔ RequestFits sizes producer) := by
  cases producer with
  | beacon =>
    obtain ⟨hevents, hresult⟩ := beacon_ensures hlen host clock sizes strtodEnd
    exact ⟨hevents, fun q hq => iff_of_true (hresult _ hq q rfl) trivial⟩
  | topo =>
    obtain ⟨hevents, hresult⟩ := sendTopo_ensures host clock b.toAwdsRouting
    exact ⟨hevents, fun q hq => iff_of_true (hresult _ hq q rfl) trivial⟩
  | frame bytes =>
    obtain ⟨hevents, hresult⟩ := tapRecv_ensures host clock b.toAwdsRouting bytes
    exact ⟨hevents, fun q hq => iff_of_true (hresult _ hq q rfl) trivial⟩
  | topoLock argv =>
    refine ⟨Traced.all_lift _, fun q hq => iff_of_true ?_ trivial⟩
    exact (topoLockPacket_size hq).trans (by decide)
  | ping adj args stamp =>
    unfold Producer.run
    dsimp only
    cases hparse : Pinger.parseOpts strtodEnd adj args with
    | none => exact ⟨Traced.all_pure, fun q hq => by cases hq⟩
    | some pinger =>
      refine ⟨Traced.all_lift _, fun q hq => ?_⟩
      rw [sendAway_size hq, nextPing_size, parseOpts_size hparse]
      -- the header of a ping fits
      have hheader : Pinger.pingHeaderEnd ≤ BasePacket.maxSize := by decide
      exact max_le_iff.trans ((and_iff_left hheader).trans
        (sizeT_le_iff (requestedSize_range (by decide) args)))
  | metric probe dest =>
    refine ⟨Traced.all_pure, fun q hq => ?_⟩
    rw [sendProbe_size (Except.ok.inj hq)]
    exact max_le_iff.trans (and_congr_right' (sizeT_le_iff (packetSize_range probe)))
  | traffic t pCount pSize d =>
    refine ⟨Traced.all_lift _, fun q hq => ?_⟩
    rw [trafficSend_size hq]
    rfl
  | trafficReply dest =>
    refine ⟨Traced.all_lift _, fun q hq => iff_of_true ?_ trivial⟩
    rw [sendAway_size hq]
    show TrafficPacket.trafficHeaderEnd ≤ BasePacket.maxSize
    decide

/-- The sizes of the native values on a machine with 64 bits. -/
def nativeSizes64 : NativeSizes := { nodeId := 8, absTime := 8, duration := 8 }

/-- The station 1 with a route to the station 2. -/
def routedStation : BeaconRouting := { toAwdsRouting := wayRouting, nextBeacon := 0 }

/-- The arguments of `ping -s SIZE 2` at this station. -/
def sizedPing (size : String) : Producer :=
  .ping wayRouting.topology.adjList [cStr "-s", cStr size, cStr "2"] (List.replicate 8 0)

/-- The packet that is sent has `n` bytes. -/
def sendsBytes (n : Nat) (x : Written (Option BasePacket)) : Bool :=
  match x.result with
  | .ok (some q) => decide (q.size = n)
  | _ => false

/-- How a test on the result turns into the packet that was sent. -/
theorem exists_sent {n : Nat} {x : Written (Option BasePacket)} (h : sendsBytes n x = true) :
    ∃ q, x.result = .ok (some q) ∧ q.size = n := by
  unfold sendsBytes at h
  split at h
  · rename_i q hq
    exact ⟨q, hq, of_decide_eq_true h⟩
  · cases h

/-- A ping of 1000 bytes. -/
theorem sent_fits_ping : ∃ q, ((sizedPing "1000").run (pairHosts false) ⟨0, 0⟩ nativeSizes64
    (fun _ => none) routedStation).result = .ok (some q) ∧ q.size ≤ BasePacket.maxSize := by
  obtain ⟨q, hq, -⟩ := exists_sent (n := 1000) (x := (sizedPing "1000").run (pairHosts false)
    ⟨0, 0⟩ nativeSizes64 (fun _ => none) routedStation) (by decide +kernel)
  have hfits : 0 ≤ requestedSize 200 [cStr "-s", cStr "1000", cStr "2"] ∧
      requestedSize 200 [cStr "-s", cStr "1000", cStr "2"] ≤ BasePacket.maxSize := by decide +kernel
  exact ⟨q, hq, ((sent_fits_iff (pairHosts false) ⟨0, 0⟩ nativeSizes64 (fun _ => none)
    routedStation (by decide) (sizedPing "1000")).2 q hq).mpr hfits⟩

/-- A ping of 5000 bytes is sent, and so is a packet of a `PktPair` with the size -1. -/
theorem sent_too_long :
    (∃ q, ((sizedPing "5000").run (pairHosts false) ⟨0, 0⟩ nativeSizes64 (fun _ => none)
      routedStation).result = .ok (some q) ∧ q.size = 5000) ∧
    (∃ q, ((Producer.metric (.pktPair false (-1)) 2).run (pairHosts false) ⟨0, 0⟩ nativeSizes64
      (fun _ => none) routedStation).result = .ok (some q) ∧ q.size = 2 ^ 64 - 1) ∧
    BasePacket.maxSize < 5000 :=
  ⟨exists_sent (by decide +kernel), exists_sent (by decide +kernel), by decide⟩

end Awds.Proofs
