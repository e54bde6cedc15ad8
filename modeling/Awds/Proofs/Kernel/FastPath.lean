import Awds.Proofs.Kernel.Interfaces
import Awds.Proofs.Kernel.RoutingTable
import Awds.Proofs.Kernel.Statistics
import Awds.Proofs.Routing.Authentication
import Awds.Proofs.Topology.Forwarding

/-!
# `Awds.Proofs.Kernel.FastPath`: the packet handler and the daemon

The module can forward a unicast packet and deliver its frame without the daemon. It decides
by the destination, the TTL and the address in the frame. The daemon has more filters:
`recv_packet` asks the firewall and compares the source with the station, `recv_unicast`
compares `NextHop` with the station and does not send a packet whose next hop is the station
itself, which stands for a destination that cannot be reached.

`Carries skb p` says that the module gets the packet `p` of the daemon. `Receives` says that
the device belongs to an instance, which is what the lookups of the handler need. They find
nothing while `awds_instance_mutex` is free, and the handler does not take it.

`forwarding_agrees` says for which packets for another station the two do the same, and
`local_delivery_agrees` for which packets for this station the frame is the one that the tap
interface would have written.
-/

set_option autoImplicit false

namespace Awds.Proofs

open Std (ExtTreeMap)
open Awds.Lib Awds.Kernel Awds.Kernel.AwdsModule Awds.AwdsRouting

/-! ### Addresses -/

/-- Six bytes are kept by the way through `fromArray` and `toArray`. -/
theorem toArray_fromArray {bs : List UInt8} (h : bs.length = NodeId.size) :
    (NodeId.fromArray bs).toArray = bs := by
  have hlt : ofBigEndian bs < 2 ^ 48 := by
    have hbound := ofBigEndian_lt bs
    rw [h] at hbound
    exact hbound
  show toBigEndian NodeId.size (Fin.ofNat _ (ofBigEndian bs)).val = bs
  rw [Fin.val_ofNat, Nat.mod_eq_of_lt hlt, ← h, toBigEndian_ofBigEndian]

/-- The comparison of an address with a block of bytes is that of the addresses. -/
theorem memcmp_toArray {own : NodeId} {bs : List UInt8} (h : bs.length = NodeId.size) :
    memcmp own.toArray bs = .eq ↔ NodeId.fromArray bs = own := by
  have hown : (own : Nat) < 256 ^ NodeId.size := own.isLt
  have hbs : ofBigEndian bs < 2 ^ 48 := by
    have hbound := ofBigEndian_lt bs
    rw [h] at hbound
    exact hbound
  rw [memcmp_eq_compare (by rw [NodeId.length_toArray, h]), compare_eq_iff_eq, NodeId.toArray,
    ofBigEndian_toBigEndian_of_lt hown, Fin.ext_iff, NodeId.fromArray, Fin.val_ofNat,
    Nat.mod_eq_of_lt hbs, eq_comm]

/-! ### The lookups of the handler -/

/-- The device belongs to the instance `p` in the slot `i`, and the interfaces of the instance
on it have the address of the station. No slot in front of it has the device. -/
structure Receives (m : AwdsModule) (dev : DevPtr) (own : NodeId) (p : InstancePtr)
    (sk : SockPtr) (ps : List InterfacePtr) (i : Nat) : Prop where
  used : Used m i
  slot : m.awdsInstances i = some p
  attached : Attached m p sk ps
  bound : some dev ∈ ps.map (devAt m)
  addr : ∀ q f, m.interfaces q = some f → f.dev = dev → f.addr.saAddr = own.toArray
  front : ∀ j, j < i → ∃ p' sk' ps', m.awdsInstances j = some p' ∧ Attached m p' sk' ps' ∧
    some dev ∉ ps'.map (devAt m)

/-- A packet of the daemon as the module gets it. -/
structure Carries (skb : SkBuff) (pkt : BasePacket) : Prop where
  protocol : skb.protocol = ethPAwds
  data : skb.data = pkt.buffer
  len : skb.len = pkt.size

section
variable {m m' : AwdsModule} {own : NodeId} {p : InstancePtr} {sk : SockPtr}
  {ps : List InterfacePtr} {i : Nat} {skb : SkBuff} {net : Net} {env : RcvEnv}

/-- The search over the slots stops at the slot of the instance: the slots in front of it hold
instances that do not have the device. The induction is on the number of slots that are left. -/
theorem findByDevLoop_run {dev : DevPtr} {n k : Nat} (hp : m.awdsInstances i = some p)
    (hatt : Attached m p sk ps) (hdev : some dev ∈ ps.map (devAt m))
    (hfront : ∀ j, j < i → ∃ p' sk' ps', m.awdsInstances j = some p' ∧ Attached m p' sk' ps' ∧
      some dev ∉ ps'.map (devAt m))
    (hk : k ≤ i) (hn : i < k + n) : findByDevLoop dev n k m = .ok (m, some p) := by
  induction n generalizing k with
  | zero => omega
  | succ n ih =>
    by_cases hki : k = i
    · subst hki
      rw [findByDevLoop, hp]
      dsimp only
      rw [hatt.findInterface dev, except_bind_ok]
      dsimp only
      rw [if_pos (find_isSome_iff.mpr hdev)]
    · obtain ⟨p', sk', ps', hp', hatt', hnot⟩ := hfront k (by omega)
      rw [findByDevLoop, hp']
      dsimp only
      rw [hatt'.findInterface dev, except_bind_ok]
      dsimp only
      rw [if_neg (mt find_isSome_iff.mp hnot)]
      exact ih (by omega) (by omega)

/-- The lookups read the slots, the instances and the lists of interfaces. -/
theorem Receives.congr {dev : DevPtr} (h : Receives m dev own p sk ps i)
    (hindex : m'.awdsInstanceIndex = m.awdsInstanceIndex)
    (hslots : m'.awdsInstances = m.awdsInstances) (hinst : m'.instances = m.instances)
    (hiface : m'.interfaces = m.interfaces)
    (hinterf : ∀ x, (m'.socks x).interf = (m.socks x).interf) (hnext : m'.nextPtr = m.nextPtr) :
    Receives m' dev own p sk ps i := by
  -- Everything that the predicate reads is the same in both states.
  have hdev : devAt m' = devAt m := by
    funext q
    unfold devAt
    rw [hiface]
  have hattached : ∀ p' sk' ps', Attached m p' sk' ps' → Attached m' p' sk' ps' := by
    intro p' sk' ps' hatt
    exact hatt.frame (congrFun hinst p') hnext.ge (hinterf sk') fun q _ => congrFun hiface q
  exact {
    used := by
      show (i : Int) ≤ m'.awdsInstanceIndex
      rw [hindex]
      exact h.used
    slot := by rw [hslots]; exact h.slot
    attached := hattached _ _ _ h.attached
    bound := by rw [hdev]; exact h.bound
    addr := by rw [hiface]; exact h.addr
    front := fun j hj => by
      obtain ⟨p', sk', ps', hp', hatt', hnot⟩ := h.front j hj
      exact ⟨p', sk', ps', by rw [hslots]; exact hp', hattached _ _ _ hatt',
        by rw [hdev]; exact hnot⟩ }

/-- The counters do not matter for the lookups. -/
theorem Receives.counted (h : Receives m skb.dev own p sk ps i) (s : AwdsPacketStatistic) :
    Receives { m with awdsStats := s } skb.dev own p sk ps i :=
  h.congr rfl rfl rfl rfl (fun _ => rfl) rfl

/-- The search by the device finds the instance of the slot. -/
theorem Receives.byDev {dev : DevPtr} (h : Receives m dev own p sk ps i)
    (hmutex : m.mutex = true) : m.awdsFindInstanceByDevLocked dev = .ok (m, some p) := by
  unfold awdsFindInstanceByDevLocked
  rw [if_neg (by simp [hmutex])]
  refine findByDevLoop_run h.slot h.attached h.bound h.front (Nat.zero_le i) ?_
  have hused : (i : Int) ≤ m.awdsInstanceIndex := h.used
  omega

/-- The socket of that instance. -/
theorem Receives.sock {dev : DevPtr} (h : Receives m dev own p sk ps i) :
    m.sockOf p = .ok sk := by
  obtain ⟨inst, hinst, hsock, -⟩ := h.attached.inst
  exact sockOf_run hinst hsock

/-- The interface of the device has the address of the station. -/
theorem Receives.interface {dev : DevPtr} (h : Receives m dev own p sk ps i) :
    ∃ q f, m.awdsFindInterface p dev = .ok (m, some q) ∧ m.iface q = .ok f ∧
      f.addr.saAddr = own.toArray := by
  obtain ⟨q, hq⟩ := Option.isSome_iff_exists.mp (find_isSome_iff.mpr h.bound)
  obtain ⟨f, hf, hfdev⟩ : ∃ f, m.interfaces q = some f ∧ f.dev = dev := by
    have hdev : devAt m q = some dev := by simpa using List.find?_some hq
    exact Option.map_eq_some_iff.mp hdev
  refine ⟨q, f, ?_, iface_eq_ok.mpr hf, h.addr q f hf hfdev⟩
  rw [h.attached.findInterface dev, hq]

/-- The statistics change the counters and nothing else. -/
theorem counted_eq (m : AwdsModule) (skb : SkBuff) : ∃ s, (if m.statistics then
    { m with awdsStats := m.awdsStats.awdsCountPacket skb } else m) =
      { m with awdsStats := s } := by
  split
  · exact ⟨_, rfl⟩
  · exact ⟨m.awdsStats, rfl⟩

/-- The handler up to the interface. -/
theorem Receives.packetRcv (h : Receives m skb.dev own p sk ps i) (net : Net) (env : RcvEnv)
    (hmutex : m.mutex = true) (hproto : skb.protocol = ethPAwds) (hlen : 9 ≤ skb.len)
    (htype : skb.data 0 = packetUnicast) :
    ∃ s, m.awdsPacketRcv net env skb =
      { m with awdsStats := s }.rcvUnicast net env p sk skb := by
  obtain ⟨s, hs⟩ := counted_eq m skb
  refine ⟨s, ?_⟩
  have hget : skb.awdsGetPacketType = packetUnicast.toNat := by
    unfold SkBuff.awdsGetPacketType
    rw [if_neg (by show ¬ skb.len < 9; omega), htype]
  unfold awdsPacketRcv
  rw [if_neg (by simp [hproto]), h.byDev hmutex, except_bind_ok]
  dsimp only
  rw [hs, (h.counted s).sock, except_bind_ok, if_pos hget]

/-- The unicast case behind the lookup of the interface. -/
theorem Receives.rcvUnicast (h : Receives m skb.dev own p sk ps i) :
    m.rcvUnicast net env p sk skb = (do
      let own := decide (NodeId.fromArray (skb.data.read awdsDestOffset ethAlen) = own)
      let (m, frame?) ← m.tryLocal net env sk own skb
      match frame? with
      | some (dev, frame) => Except.ok (m, .delivered dev frame)
      | none => do
        let (m, sent?) ← m.tryForward env own skb
        match sent? with
        | some sent => Except.ok (m, .retransmitted sent)
        | none => Except.ok (m, passUp env sk skb)) := by
  obtain ⟨q, f, hq, hf, haddr⟩ := h.interface
  have hself : decide (memcmp f.addr.saAddr (skb.data.read awdsDestOffset ethAlen) = .eq) =
      decide (NodeId.fromArray (skb.data.read awdsDestOffset ethAlen) = own) := by
    rw [haddr]
    exact decide_eq_decide.mpr (memcmp_toArray (Buffer.length_read _ _ _))
  unfold AwdsModule.rcvUnicast
  rw [hq, except_bind_ok]
  dsimp only
  rw [hf, except_bind_ok]
  generalize decide (memcmp f.addr.saAddr _ = .eq) = isOwn at hself ⊢
  subst hself
  rfl

end

/-! ### The daemon -/

section
variable {host : Host} {clock : Clock} {r : AwdsRouting} {pkt pkt' : BasePacket}

/-- A byte reaches zero at the next decrement if it is one. -/
theorem sub_one_eq_zero (b : UInt8) : b - 1 = 0 ↔ b = 1 := by
  rw [sub_eq_zero]

/-- The decrement of the TTL changes nothing in front of it. -/
theorem read_decrTTL (pkt : BasePacket) {off n : Nat} (h : off + n ≤ UnicastPacket.offsetTTL) :
    (UnicastPacket.decrTTL pkt).buffer.read off n = pkt.buffer.read off n :=
  Buffer.read_congr fun _ _ hi => Buffer.write_of_lt _ _ (hi.trans_le h)

/-- In particular it keeps the next hop. -/
theorem getNextHop_decrTTL (pkt : BasePacket) :
    UnicastPacket.getNextHop (UnicastPacket.decrTTL pkt) = UnicastPacket.getNextHop pkt := by
  unfold UnicastPacket.getNextHop
  rw [read_decrTTL pkt (Nat.le_refl _)]

/-- The destination stands in front of the TTL as well. -/
theorem getUcDest_decrTTL (pkt : BasePacket) :
    UnicastPacket.getUcDest (UnicastPacket.decrTTL pkt) = UnicastPacket.getUcDest pkt := by
  unfold UnicastPacket.getUcDest
  rw [read_decrTTL pkt (by decide)]

/-- `recv_unicast` on a packet without control bits. -/
theorem recvUnicast_plain (hplain : PlainUnicast pkt) : r.recvUnicast host clock pkt =
    if pkt.buffer UnicastPacket.offsetTTL = 1 then .ok (r, .drop)
    else if UnicastPacket.getNextHop pkt ≠ host.myNodeId then .ok (r, .drop)
    else if UnicastPacket.getUcDest pkt = host.myNodeId then
      .ok (r, .deliver (UnicastPacket.decrTTL pkt))
    else r.routeUnicast host clock (UnicastPacket.decrTTL pkt) := by
  -- A plain packet has no trace, so the branch that adds a hop is not taken.
  have htrace : SrcPacket.getTraceFlag (UnicastPacket.decrTTL pkt) = false := by
    show decide ((UnicastPacket.decrTTL pkt).buffer 0 &&& _ ≠ 0) = false
    have hbyte : (UnicastPacket.decrTTL pkt).buffer 0 = pkt.buffer 0 :=
      Buffer.write_of_lt pkt.buffer [pkt.buffer UnicastPacket.offsetTTL - 1]
        (show 0 < UnicastPacket.offsetTTL by decide)
    rw [hbyte, hplain]
    rfl
  -- The TTL is compared behind the decrement.
  have httl : UnicastPacket.getTTL (UnicastPacket.decrTTL pkt) = 0 ↔
      pkt.buffer UnicastPacket.offsetTTL = 1 := by
    have hbyte : (UnicastPacket.decrTTL pkt).buffer UnicastPacket.offsetTTL =
        pkt.buffer UnicastPacket.offsetTTL - 1 :=
      Buffer.write_at pkt.buffer [pkt.buffer UnicastPacket.offsetTTL - 1] UnicastPacket.offsetTTL 0
        Nat.one_pos
    show ((UnicastPacket.decrTTL pkt).buffer UnicastPacket.offsetTTL).toNat = 0 ↔ _
    rw [hbyte, ← sub_one_eq_zero, ← UInt8.toNat_inj]
    rfl
  unfold AwdsRouting.recvUnicast
  simp only [hplain.setType, htrace, Bool.false_eq_true, if_false, getNextHop_decrTTL,
    getUcDest_decrTTL, httl]

/-- What `recv_packet` and `recv_unicast` ask for besides the TTL. -/
structure Passes (host : Host) (r : AwdsRouting) (pkt : BasePacket) : Prop where
  firewall : r.passesFirewall pkt = true
  src : SrcPacket.getSrc pkt ≠ host.myNodeId
  nextHop : UnicastPacket.getNextHop pkt = host.myNodeId

/-- The daemon gets the packet `pkt` and sends `pkt'`. -/
def Forwards (host : Host) (clock : Clock) (r : AwdsRouting) (pkt pkt' : BasePacket) : Prop :=
  r.recvPacket host pkt = some .unicast ∧
    ∃ r', r.recvUnicast host clock pkt = .ok (r', .send pkt')

/-- On a plain unicast packet `recv_packet` only asks for the firewall and for a foreign source. -/
theorem recvPacket_plain (hplain : PlainUnicast pkt) : r.recvPacket host pkt = some .unicast ↔
    r.passesFirewall pkt = true ∧ SrcPacket.getSrc pkt ≠ host.myNodeId := by
  have htype : pkt.getType = .unicast := by
    rw [BasePacket.getType, hplain]
    rfl
  unfold recvPacket
  rw [htype]
  split
  · rename_i hpass
    exact ⟨fun _ => hpass, fun _ => rfl⟩
  · rename_i hpass
    exact ⟨fun hc => (by cases hc), fun hc => absurd hc hpass⟩

/-- When the daemon sends a packet for another station, and which. -/
theorem forwards_iff (hplain : PlainUnicast pkt) (hclean : r.topology.dirty = false)
    (hdest : UnicastPacket.getUcDest pkt ≠ host.myNodeId) :
    Forwards host clock r pkt pkt' ↔
      pkt.buffer UnicastPacket.offsetTTL ≠ 1 ∧ Passes host r pkt ∧
      ∃ nd, r.topology.adjList[UnicastPacket.getUcDest pkt]? = some nd ∧
        nd.nextHop ≠ host.myNodeId ∧
        pkt' = (UnicastPacket.setNextHop (UnicastPacket.decrTTL pkt) nd.nextHop).setDest
          nd.nextHop := by
  unfold Forwards
  rw [recvPacket_plain hplain, recvUnicast_plain hplain]
  constructor
  · rintro ⟨⟨hfire, hsrc⟩, r', hrun⟩
    -- The tests of `recv_unicast` in their order: the TTL, the next hop, the destination.
    by_cases httl : pkt.buffer UnicastPacket.offsetTTL = 1
    · rw [if_pos httl] at hrun
      cases hrun
    by_cases hnext : UnicastPacket.getNextHop pkt ≠ host.myNodeId
    · rw [if_neg httl, if_pos hnext] at hrun
      cases hrun
    rw [if_neg httl, if_neg hnext, if_neg hdest] at hrun
    unfold routeUnicast at hrun
    rw [getUcDest_decrTTL, getNextHop_of_clean hclean, except_bind_ok] at hrun
    refine ⟨httl, ⟨hfire, hsrc, not_not.mp hnext⟩, ?_⟩
    -- What is left is the lookup of the route.
    cases hnd : r.topology.adjList[UnicastPacket.getUcDest pkt]? with
    | none =>
      rw [hnd] at hrun
      cases hrun
    | some nd =>
      rw [hnd] at hrun
      dsimp only at hrun
      split at hrun
      · cases hrun
      · rename_i hfound
        cases hrun
        exact ⟨nd, rfl, by simpa using hfound, rfl⟩
  · -- Conversely no test stops the packet.
    rintro ⟨httl, hpass, nd, hnd, hhop, rfl⟩
    refine ⟨⟨hpass.firewall, hpass.src⟩, r, ?_⟩
    rw [if_neg httl, if_neg (not_not.mpr hpass.nextHop), if_neg hdest]
    unfold routeUnicast
    rw [getUcDest_decrTTL, getNextHop_of_clean hclean, except_bind_ok, hnd]
    dsimp only
    rw [if_neg (by simpa using hhop)]

end

/-! ### Forwarding -/

section
variable {m m' : AwdsModule} {host : Host} {clock : Clock} {r : AwdsRouting}
  {pkt pkt' : BasePacket} {p : InstancePtr} {sk : SockPtr} {ps : List InterfacePtr} {i : Nat}
  {skb skb' : SkBuff} {net : Net} {env : RcvEnv}

/-- The module gets the packet `skb` and sends `skb'`. -/
def Retransmits (net : Net) (env : RcvEnv) (m : AwdsModule) (skb skb' : SkBuff) : Prop :=
  ∃ m', m.awdsPacketRcv net env skb = .ok (m', .retransmitted skb')

/-- The packet that the module sends to the next hop `hop`. -/
def relayedTo (skb : SkBuff) (hop : NodeId) : SkBuff :=
  { skb with
    data := (skb.data.write awdsTtlOffset [skb.data awdsTtlOffset - 1]).write awdsNexthopOffset
      hop.toArray
    ethSrc := skb.ethDest
    ethDest := hop.toArray }

/-- Without the mutex the search finds no instance: the module checks that it holds the lock. -/
theorem findByDev_unlocked (dev : DevPtr) (hmutex : m.mutex = false) :
    m.awdsFindInstanceByDevLocked dev = .ok (m, none) := if_pos (by simp [hmutex])

/-- A handler that runs without the mutex therefore frees the packet. -/
theorem packetRcv_unlocked (hmutex : m.mutex = false) (hproto : skb.protocol = ethPAwds) :
    m.awdsPacketRcv net env skb = .ok (m, .freed) := by
  unfold awdsPacketRcv
  rw [if_neg (by simp [hproto]), findByDev_unlocked skb.dev hmutex]
  rfl

/-- The search and the sending for a packet for another station. -/
theorem tryForward_run {adj : AdjList} (hmirror : Mirrors m adj) {d : NodeId}
    (hd : skb.data.read awdsDestOffset ethAlen = d.toArray)
    (hconf : m.configuration &&& awdsForwardConfig ≠ 0) :
    m.tryForward env false skb = match adj[d]? with
      | none => .ok (m, none)
      | some nd =>
        if skb.data awdsTtlOffset = 1 then .ok (m, none)
        else if !env.sendOk then .error .useAfterFree
        else .ok (if m.statistics then
          { m with awdsStats :=
              { m.awdsStats with rxForwardedUnicast := m.awdsStats.rxForwardedUnicast + 1 } }
          else m, some (relayedTo skb nd.nextHop)) := by
  unfold tryForward
  rw [hmirror.checkRouting hd, except_bind_ok]
  cases adj[d]? with
  | none => rfl
  | some nd =>
    dsimp only [Option.map_some]
    rw [if_pos (by simpa using hconf)]
    unfold SkBuff.awdsDoRetransmitLocked
    dsimp only
    -- The module tests the TTL behind the decrement as well.
    by_cases httl : skb.data awdsTtlOffset = 1
    · rw [if_pos httl, if_pos ((sub_one_eq_zero _).mpr httl)]
    · rw [if_neg httl, if_neg (mt (sub_one_eq_zero _).mp httl)]
      rfl

/-- When the module sends a packet for another station, and which. -/
theorem retransmits_iff {adj : AdjList} {own : NodeId} (h : Receives m skb.dev own p sk ps i)
    (hmirror : Mirrors m adj) (hconf : m.configuration &&& awdsForwardConfig ≠ 0)
    (hproto : skb.protocol = ethPAwds) (hlen : 9 ≤ skb.len) (htype : skb.data 0 = packetUnicast)
    {d : NodeId} (hd : skb.data.read awdsDestOffset ethAlen = d.toArray) (hdest : d ≠ own) :
    Retransmits net env m skb skb' ↔ m.mutex = true ∧ env.sendOk = true ∧
      skb.data awdsTtlOffset ≠ 1 ∧ ∃ nd, adj[d]? = some nd ∧ skb' = relayedTo skb nd.nextHop := by
  unfold Retransmits
  cases hmutex : m.mutex with
  | false =>
    -- Without the mutex no instance is found and the packet is freed.
    rw [packetRcv_unlocked hmutex hproto]
    constructor
    · rintro ⟨m', hc⟩
      cases hc
    · rintro ⟨hc, -⟩
      cases hc
  | true =>
    obtain ⟨s, hrun⟩ := h.packetRcv net env hmutex hproto hlen htype
    -- The packet is for another station, so local delivery is not tried.
    have hother : decide (NodeId.fromArray (skb.data.read awdsDestOffset ethAlen) = own) =
        false := by
      rw [hd, NodeId.fromArray_toArray]
      simpa using hdest
    have hmirror' : Mirrors { m with awdsStats := s } adj := ⟨hmirror.table, hmirror.count⟩
    rw [hrun, (h.counted s).rcvUnicast]
    dsimp only
    rw [hother]
    show (∃ m', (do
      let (m, sent?) ← { m with awdsStats := s }.tryForward env false skb
      match sent? with
      | some sent => Except.ok (m, Verdict.retransmitted sent)
      | none => Except.ok (m, passUp env sk skb)) = .ok (m', .retransmitted skb')) ↔ _
    rw [tryForward_run hmirror' hd hconf]
    -- A packet that is passed up was not sent.
    have hpass : passUp env sk skb ≠ .retransmitted skb' := by
      unfold passUp
      split
      · exact fun hc => by cases hc
      · exact fun hc => by cases hc
    -- The outcomes of `tryForward` one by one: no route, a TTL of 1, a send that fails, and a
    -- packet that was sent.
    cases hnd : adj[d]? with
    | none =>
      constructor
      · rintro ⟨m', hc⟩
        injection hc with hc
        exact absurd (Prod.ext_iff.mp hc).2 hpass
      · rintro ⟨-, -, -, nd, hc, -⟩
        cases hc
    | some nd =>
      dsimp only
      by_cases httl : skb.data awdsTtlOffset = 1
      · rw [if_pos httl]
        constructor
        · rintro ⟨m', hc⟩
          injection hc with hc
          exact absurd (Prod.ext_iff.mp hc).2 hpass
        · rintro ⟨-, -, hc, -⟩
          exact absurd httl hc
      · rw [if_neg httl]
        cases hsend : env.sendOk with
        | false =>
          constructor
          · rintro ⟨m', hc⟩
            cases hc
          · rintro ⟨-, hc, -⟩
            cases hc
        | true =>
          constructor
          · rintro ⟨m', hc⟩
            injection hc with hc
            injection (Prod.ext_iff.mp hc).2 with hskb
            exact ⟨rfl, rfl, httl, nd, rfl, hskb.symm⟩
          · rintro ⟨-, -, -, nd', hnd', rfl⟩
            cases hnd'
            exact ⟨_, rfl⟩

/-- The module and the daemon do the same with a packet for another station: one sends it if
the other does, and they send the same bytes to the same next hop. -/
def ForwardingAgrees (net : Net) (env : RcvEnv) (m : AwdsModule) (host : Host) (clock : Clock)
    (r : AwdsRouting) (skb : SkBuff) (pkt : BasePacket) : Prop :=
  ((∃ skb', Retransmits net env m skb skb') ↔ ∃ pkt', Forwards host clock r pkt pkt') ∧
  ∀ skb' pkt', Retransmits net env m skb skb' → Forwards host clock r pkt pkt' →
    Carries skb' pkt' ∧ skb'.ethDest = pkt'.dest.toArray

/-- Take a module that forwards and has the table of the daemon's topology, and a unicast packet
for another station. The module and the daemon agree on it if and only if one of these is true:
the destination is not a node of the topology, the TTL is used up, or `awds_instance_mutex`
happens to be held and the device can send exactly if the packet passes the filters of the
daemon and the destination can be reached. -/
theorem forwarding_agrees (h : Receives m skb.dev host.myNodeId p sk ps i)
    (hmirror : Mirrors m r.topology.adjList) (hclean : r.topology.dirty = false)
    (hconf : m.configuration &&& awdsForwardConfig ≠ 0) (hcarry : Carries skb pkt)
    (hplain : PlainUnicast pkt) (hlen : awdsHlen ≤ pkt.size)
    (hdest : UnicastPacket.getUcDest pkt ≠ host.myNodeId) :
    ForwardingAgrees net env m host clock r skb pkt ↔
      ∀ nd, r.topology.adjList[UnicastPacket.getUcDest pkt]? = some nd →
        pkt.buffer UnicastPacket.offsetTTL ≠ 1 →
        ((m.mutex = true ∧ env.sendOk = true) ↔
          (Passes host r pkt ∧ nd.nextHop ≠ host.myNodeId)) := by
  -- Both sides read the same destination.
  have hd : skb.data.read awdsDestOffset ethAlen = (UnicastPacket.getUcDest pkt).toArray := by
    rw [hcarry.data]
    exact (toArray_fromArray (Buffer.length_read _ _ _)).symm
  have hlen' : 9 ≤ skb.len := by
    rw [hcarry.len]
    exact Nat.le_trans (by decide) hlen
  have htype : skb.data 0 = packetUnicast := by
    rw [hcarry.data]
    exact hplain
  -- With both sides reduced to their conditions only these are left to compare.
  have hkernel : ∀ skb', Retransmits net env m skb skb' ↔ _ := fun skb' =>
    retransmits_iff h hmirror hconf hcarry.protocol hlen' htype hd hdest
  have hdaemon : ∀ pkt', Forwards host clock r pkt pkt' ↔ _ := fun pkt' =>
    forwards_iff hplain hclean hdest
  rw [hcarry.data] at hkernel
  -- If both send, they send the same packet.
  have hsame : ∀ skb' pkt', Retransmits net env m skb skb' → Forwards host clock r pkt pkt' →
      Carries skb' pkt' ∧ skb'.ethDest = pkt'.dest.toArray := by
    intro skb' pkt' hk hf
    obtain ⟨-, -, -, nd, hnd, rfl⟩ := (hkernel skb').mp hk
    obtain ⟨-, -, nd', hnd', -, rfl⟩ := (hdaemon pkt').mp hf
    rw [hnd] at hnd'
    cases hnd'
    refine ⟨⟨hcarry.protocol, ?_, hcarry.len⟩, rfl⟩
    show Buffer.write _ _ _ = Buffer.write _ _ _
    rw [hcarry.data]
    rfl
  refine ⟨fun hagree nd hnd httl => ⟨fun hheld => ?_, fun hpass => ?_⟩, fun hcond =>
    ⟨⟨?_, ?_⟩, hsame⟩⟩
  · -- The module sends, so the daemon does.
    obtain ⟨pkt', hf⟩ := hagree.1.mp ⟨_, (hkernel _).mpr ⟨hheld.1, hheld.2, httl, nd, hnd, rfl⟩⟩
    obtain ⟨-, hpass, nd', hnd', hhop, -⟩ := (hdaemon pkt').mp hf
    rw [hnd] at hnd'
    cases hnd'
    exact ⟨hpass, hhop⟩
  · -- The daemon sends, so the module does.
    obtain ⟨skb', hk⟩ := hagree.1.mpr ⟨_, (hdaemon _).mpr
      ⟨httl, hpass.1, nd, hnd, hpass.2, rfl⟩⟩
    obtain ⟨hmutex, hsend, -⟩ := (hkernel skb').mp hk
    exact ⟨hmutex, hsend⟩
  · rintro ⟨skb', hk⟩
    obtain ⟨hmutex, hsend, httl, nd, hnd, -⟩ := (hkernel skb').mp hk
    obtain ⟨hpass, hhop⟩ := (hcond nd hnd httl).mp ⟨hmutex, hsend⟩
    exact ⟨_, (hdaemon _).mpr ⟨httl, hpass, nd, hnd, hhop, rfl⟩⟩
  · rintro ⟨pkt', hf⟩
    obtain ⟨httl, hpass, nd, hnd, hhop, -⟩ := (hdaemon pkt').mp hf
    obtain ⟨hmutex, hsend⟩ := (hcond nd hnd httl).mpr ⟨hpass, hhop⟩
    exact ⟨_, (hkernel _).mpr ⟨hmutex, hsend, httl, nd, hnd, rfl⟩⟩

/-- The module of station 1 with one socket on the device 10, and with the table of the station.
Some thread holds `awds_instance_mutex` or none does. -/
def relayModule (held : Bool) : AwdsModule where
  instances q := if q = 0 then some { index := 0, sock := some 1 } else none
  interfaces q := if q = 1 then some { index := 0, dev := 10, addr := ⟨1, NodeId.toArray 1⟩ }
    else none
  socks s := if s = 1 then { ifcount := 1, interf := some 1 } else {}
  awdsInstances j := if j = 0 then some 0 else none
  awdsInstanceIndex := 0
  mutex := held
  nextPtr := 2
  awdsRouting := some (relayTable.toList.map routingEntryOf)
  awdsRoutingCount := relayTable.size

/-- The device 10 of the module is bound to the instance in the first slot. -/
theorem receives_relayModule (held : Bool) :
    Receives (relayModule held) 10 1 0 1 [1] 0 where
  used := Int.le_refl 0
  slot := rfl
  attached := ⟨⟨_, rfl, rfl, rfl⟩, ⟨rfl, _, rfl, rfl, rfl⟩, List.nodup_singleton _,
    fun q hq => by rw [List.mem_singleton.mp hq]; exact Nat.lt_succ_self 1⟩
  bound := List.mem_singleton.mpr rfl
  addr q f hf _ := by
    have hite : (if q = 1 then some ({ index := 0, dev := 10, addr := ⟨1, NodeId.toArray 1⟩ } :
      AwdsInterface) else none) = some f := hf
    split at hite
    · cases hite
      rfl
    · cases hite
  front j hj := absurd hj (Nat.not_lt_zero j)

/-- The table of the module is the one that the station installed. -/
theorem mirrors_relayModule (held : Bool) : Mirrors (relayModule held) relayTable := ⟨rfl, rfl⟩

/-- The daemon of that station. -/
def relayRouting : AwdsRouting :=
  { pairRouting false with topology := { adjList := relayTable, dirty := false } }

/-- A packet from station 3 to station 2 with the next hop `hop`. -/
def transitPacket (hop : NodeId) : BasePacket :=
  let p := SrcPacket.setSrc (BasePacket.new.setType .unicast) 3
  let p := UnicastPacket.setNextHop (UnicastPacket.setUcDest p 2) hop
  { UnicastPacket.setTTL p 32 with size := 40 }

/-- The packet in transit is a plain unicast packet. -/
theorem plainUnicast_transit (hop : NodeId) : PlainUnicast (transitPacket hop) := by
  show (transitPacket hop).buffer 0 = 2
  rfl

/-- Station 2 is reached over station 3. -/
theorem relayTable_two : relayTable[(2 : NodeId)]? = some { distance := 2, nextHop := 3 } := by
  decide +kernel

/-- The packet for station 1 to pass on, while the mutex is held. -/
theorem forwarding_agrees_relay : ForwardingAgrees twoDevices { now := 0 } (relayModule true)
    (pairHosts false) ⟨0, 0⟩ relayRouting { skbOf (transitPacket 1) with dev := 10 }
    (transitPacket 1) := by
  have hdest : UnicastPacket.getUcDest (transitPacket 1) = 2 := by decide +kernel
  refine (forwarding_agrees (receives_relayModule true) (mirrors_relayModule true) rfl (by decide)
    ⟨rfl, rfl, rfl⟩ (plainUnicast_transit 1) (by decide)
    (by rw [hdest]; decide)).mpr fun nd hnd _ => ?_
  rw [hdest] at hnd
  have hhop : nd.nextHop = 3 := by
    rw [show relayRouting.topology.adjList = relayTable from rfl, relayTable_two] at hnd
    cases hnd
    rfl
  refine ⟨fun _ => ⟨⟨rfl, by decide +kernel, by decide +kernel⟩, ?_⟩, fun _ => ⟨rfl, rfl⟩⟩
  rw [hhop]
  decide

/-- The same packet while the mutex is free: the daemon would send it and the module frees it.
A packet for the next hop 4, while the mutex is held: the module sends it and the daemon would
not. -/
theorem forwarding_disagrees :
    ¬ ForwardingAgrees twoDevices { now := 0 } (relayModule false) (pairHosts false) ⟨0, 0⟩
      relayRouting { skbOf (transitPacket 1) with dev := 10 } (transitPacket 1) ∧
    ¬ ForwardingAgrees twoDevices { now := 0 } (relayModule true) (pairHosts false) ⟨0, 0⟩
      relayRouting { skbOf (transitPacket 4) with dev := 10 } (transitPacket 4) := by
  constructor
  · -- The mutex is not held: the daemon would send the packet, and the module frees it.
    intro hagree
    have hdest : UnicastPacket.getUcDest (transitPacket 1) = 2 := by decide +kernel
    obtain ⟨skb', m', hk⟩ := hagree.1.mpr ⟨_, (forwards_iff (plainUnicast_transit 1) rfl
      (by rw [hdest]; decide)).mpr ⟨by decide +kernel, ⟨rfl, by decide +kernel, by decide +kernel⟩,
        { distance := 2, nextHop := 3 }, by rw [hdest]; exact relayTable_two, by decide, rfl⟩⟩
    rw [packetRcv_unlocked rfl rfl] at hk
    cases hk
  · -- The next hop of the packet is another station: the module does not look at it.
    intro hagree
    have hdest : UnicastPacket.getUcDest (transitPacket 4) = 2 := by decide +kernel
    have hhop : UnicastPacket.getNextHop (transitPacket 4) = 4 := by decide +kernel
    have hd : (transitPacket 4).buffer.read awdsDestOffset ethAlen = NodeId.toArray 2 := by
      decide +kernel
    let skb : SkBuff := { skbOf (transitPacket 4) with dev := 10 }
    have htype : skb.data 0 = packetUnicast := plainUnicast_transit 4
    have hk : Retransmits twoDevices { now := 0 } (relayModule true) skb (relayedTo skb 3) :=
      (retransmits_iff (receives_relayModule true) (mirrors_relayModule true) (by decide) rfl
        (by decide) htype hd (by decide)).mpr ⟨rfl, rfl, by decide +kernel, _, relayTable_two, rfl⟩
    obtain ⟨pkt', hf⟩ := hagree.1.mp ⟨_, hk⟩
    have hpass := ((forwards_iff (plainUnicast_transit 4) rfl (by rw [hdest]; decide)).mp hf).2.1
    have hwrong : (4 : NodeId) = 1 := hhop.symm.trans hpass.nextHop
    exact absurd hwrong (by decide)

end

/-! ### Local delivery -/

section
variable {m m' : AwdsModule} {host : Host} {clock : Clock} {r : AwdsRouting} {pkt : BasePacket}
  {skb : SkBuff} {net : Net} {env : RcvEnv} {dev : DevPtr} {frame : List UInt8}

/-- The module gets the packet `skb` and gives `frame` to the device `dev`. -/
def Injects (net : Net) (env : RcvEnv) (m : AwdsModule) (skb : SkBuff) (dev : DevPtr)
    (frame : List UInt8) : Prop :=
  ∃ m', m.awdsPacketRcv net env skb = .ok (m', .delivered dev frame)

/-- The daemon gets the packet and the tap interface writes `frame`. -/
def WritesFrame (host : Host) (clock : Clock) (r : AwdsRouting) (pkt : BasePacket)
    (frame : List UInt8) : Prop :=
  r.recvPacket host pkt = some .unicast ∧ ∃ r1 pkt1 r2 pkt2,
    r.recvUnicast host clock pkt = .ok (r1, .deliver pkt1) ∧
    UnicastPacket.getUcPacketType pkt1 = TapInterface.protoNr ∧
    TapInterface.recvUnicast host clock r1 pkt1 = .ok (r2, pkt2) ∧
    r2.tap.written = r1.tap.written ++ [frame]

/-- A frame that the local delivery takes is behind the header and as long as an Ethernet header at
least. -/
theorem tryLocal_delivered {sk : SockPtr} {own : Bool}
    (h : m.tryLocal net env sk own skb = .ok (m', some (dev, frame))) :
    awdsHlen + ethAlen ≤ skb.len ∧ frame = skb.data.read awdsHlen (skb.len - awdsHlen) := by
  unfold tryLocal at h
  split at h
  · obtain ⟨⟨t, allowed⟩, htable, h⟩ := bind_eq_ok.mp h
    -- A packet that is too short is turned down by the table.
    have hlen : allowed = true → awdsHlen + ethAlen ≤ skb.len := by
      rintro rfl
      unfold UcDestTable.awdsCheckUnicastTable at htable
      by_cases hshort : skb.len < awdsHlen + ethAlen
      · rw [if_pos hshort] at htable
        cases htable
      · exact Nat.le_of_not_lt hshort
    dsimp only at h
    split at h
    · cases h
    · rename_i hallowed
      obtain ⟨found, hlocal, h⟩ := bind_eq_ok.mp h
      refine ⟨hlen (by simpa using hallowed), ?_⟩
      unfold SkBuff.awdsDoLocalRetransmitLocked at hlocal
      split at hlocal
      · cases hlocal
        cases h
      · split at hlocal
        · cases hlocal
        · cases hlocal
          cases h
          rfl
  · cases h

/-- A packet that the module gives to a device is a unicast packet without control bits, and
the frame is all that is behind the header. -/
theorem Injects.inv (h : Injects net env m skb dev frame) :
    skb.data 0 = packetUnicast ∧ awdsHlen + ethAlen ≤ skb.len ∧
      frame = skb.data.read awdsHlen (skb.len - awdsHlen) := by
  -- A packet that is passed up was not given to a device.
  have hpass : ∀ sk, passUp env sk skb ≠ .delivered dev frame := by
    intro sk
    unfold passUp
    split
    · exact fun hc => by cases hc
    · exact fun hc => by cases hc
  obtain ⟨m', h⟩ := h
  -- Of all branches of the handler only that of local delivery gives a frame to a device.
  unfold awdsPacketRcv at h
  split at h
  · cases h
  obtain ⟨⟨m1, found⟩, -, h⟩ := bind_eq_ok.mp h
  cases found with
  | none => cases h
  | some p =>
    dsimp only at h
    obtain ⟨sk, -, h⟩ := bind_eq_ok.mp h
    split at h
    · rename_i htype
      unfold rcvUnicast at h
      obtain ⟨⟨m2, interface?⟩, -, h⟩ := bind_eq_ok.mp h
      cases interface? with
      | none => cases h
      | some ptr =>
        dsimp only at h
        obtain ⟨f, -, h⟩ := bind_eq_ok.mp h
        obtain ⟨⟨m3, frame?⟩, hlocal, h⟩ := bind_eq_ok.mp h
        cases frame? with
        | some x =>
          cases h
          refine ⟨?_, tryLocal_delivered hlocal⟩
          unfold SkBuff.awdsGetPacketType at htype
          split at htype
          · cases htype
          · exact UInt8.toNat_inj.mp (Int.ofNat.inj htype)
        | none =>
          dsimp only at h
          obtain ⟨⟨m4, sent?⟩, -, h⟩ := bind_eq_ok.mp h
          cases sent? with
          | some sent => cases h
          | none =>
            injection h with h
            exact absurd (Prod.ext_iff.mp h).2 (hpass sk)
    · injection h with h
      exact absurd (Prod.ext_iff.mp h).2 (hpass sk)

/-- Behind the TTL the decrement changes nothing either. -/
theorem decrTTL_behind (pkt : BasePacket) {j : Nat} (hj : UnicastPacket.offsetTTL < j) :
    (UnicastPacket.decrTTL pkt).buffer j = pkt.buffer j :=
  Buffer.write_of_ge _ _ hj

/-- The tap interface without a crypto unit writes all that is behind the header. -/
theorem writeFrame_written (clock : Clock) (r : AwdsRouting) (pkt : BasePacket) {off : Nat}
    (hlen : off ≤ pkt.size) :
    (r.writeFrame clock pkt off).tap.written =
      r.tap.written ++ [pkt.buffer.read off (pkt.size - off)] := by
  show r.tap.written ++ (if pkt.size < off then [] else [pkt.buffer.read off (pkt.size - off)]) = _
  rw [if_neg (Nat.not_lt.mpr hlen)]

/-- A frame that was decrypted is shorter than what was behind the header. -/
theorem recvUnicast_shorter {cu : AesCcmCryptoUnit} (hcu : r.cryptoUnit = some cu)
    {r' : AwdsRouting} {pkt' : BasePacket}
    (h : TapInterface.recvUnicast host clock r pkt = .ok (r', pkt'))
    (hw : r'.tap.written = r.tap.written ++ [frame]) : frame.length + awdsHlen < pkt.size := by
  unfold TapInterface.recvUnicast at h
  rw [hcu] at h
  dsimp only at h
  obtain ⟨len, hsize, h⟩ := bind_eq_ok.mp h
  obtain ⟨⟨cu', buf, ok⟩, -, h⟩ := bind_eq_ok.mp h
  dsimp only at h
  split at h
  · -- the packet is refused and nothing is written
    cases h
    have hlen := congrArg List.length hw
    simp at hlen
  · cases h
    by_cases hshort : pkt.size - cryptoLen < UnicastPacket.unicastPacketEnd
    · have hnone : r.tap.written ++ (if pkt.size - cryptoLen < UnicastPacket.unicastPacketEnd
          then [] else _) = r.tap.written ++ [frame] := hw
      rw [if_pos hshort] at hnone
      cases List.append_cancel_left hnone
    · -- The frame is what is left behind the header and without the signature.
      have hsome : r.tap.written ++ (if pkt.size - cryptoLen < UnicastPacket.unicastPacketEnd
          then [] else [buf.read UnicastPacket.unicastPacketEnd
            (pkt.size - cryptoLen - UnicastPacket.unicastPacketEnd)]) =
          r.tap.written ++ [frame] := hw
      rw [if_neg hshort] at hsome
      have hframe := List.singleton_inj.mp (List.append_cancel_left hsome)
      rw [← hframe, Buffer.length_read]
      have hend : UnicastPacket.unicastPacketEnd = 23 := rfl
      have hhlen : awdsHlen = 23 := rfl
      have hcrypto : cryptoLen = 32 := rfl
      omega

/-- Take a unicast packet for this station that the module gives to a local device. The tap
interface of the daemon would have written the same frame if and only if there is no crypto
unit, the packet passes the filters of the daemon, its TTL survives the decrement and its type
is that of the tap interface. -/
theorem local_delivery_agrees (hcarry : Carries skb pkt)
    (hdest : UnicastPacket.getUcDest pkt = host.myNodeId) (h : Injects net env m skb dev frame) :
    WritesFrame host clock r pkt frame ↔
      r.cryptoUnit = none ∧ Passes host r pkt ∧ pkt.buffer UnicastPacket.offsetTTL ≠ 1 ∧
        UnicastPacket.getUcPacketType pkt = TapInterface.protoNr := by
  obtain ⟨htype, hlen, hframe⟩ := h.inv
  rw [hcarry.data] at htype hframe
  rw [hcarry.len] at hlen hframe
  have hplain : PlainUnicast pkt := htype
  have hhlen : awdsHlen = 23 := rfl
  have halen : ethAlen = 6 := rfl
  -- The type stands behind the TTL, which is all that the daemon changes.
  have huc : UnicastPacket.getUcPacketType (UnicastPacket.decrTTL pkt) =
      UnicastPacket.getUcPacketType pkt :=
    congrArg UInt8.toNat (decrTTL_behind pkt (Nat.lt_succ_self _))
  unfold WritesFrame
  rw [recvPacket_plain hplain, recvUnicast_plain hplain]
  constructor
  · rintro ⟨⟨hfire, hsrc⟩, r1, pkt1, r2, pkt2, hrun, hproto, htap, hw⟩
    -- The tests of `recv_unicast`, as for a packet that is forwarded.
    by_cases httl : pkt.buffer UnicastPacket.offsetTTL = 1
    · rw [if_pos httl] at hrun
      cases hrun
    by_cases hnext : UnicastPacket.getNextHop pkt ≠ host.myNodeId
    · rw [if_neg httl, if_pos hnext] at hrun
      cases hrun
    rw [if_neg httl, if_neg hnext, if_pos hdest] at hrun
    cases hrun
    refine ⟨?_, ⟨hfire, hsrc, not_not.mp hnext⟩, httl, huc.symm.trans hproto⟩
    -- With a crypto unit the frame would be shorter than the one the module has given to the
    -- device.
    cases hcu : r.cryptoUnit with
    | none => rfl
    | some cu =>
      have hshort := recvUnicast_shorter hcu htap hw
      rw [hframe, Buffer.length_read] at hshort
      have hsize : (UnicastPacket.decrTTL pkt).size = pkt.size := rfl
      omega
  · rintro ⟨hcu, hpass, httl, hproto⟩
    refine ⟨⟨hpass.firewall, hpass.src⟩, r, UnicastPacket.decrTTL pkt,
      r.writeFrame clock (UnicastPacket.decrTTL pkt) UnicastPacket.unicastPacketEnd,
      UnicastPacket.decrTTL pkt, ?_, huc.trans hproto, ?_, ?_⟩
    · rw [if_neg httl, if_neg (not_not.mpr hpass.nextHop), if_pos hdest]
    · unfold TapInterface.recvUnicast
      rw [hcu]
    · refine (writeFrame_written clock r _ ?_).trans ?_
      · show UnicastPacket.unicastPacketEnd ≤ pkt.size
        have hend : UnicastPacket.unicastPacketEnd = 23 := rfl
        omega
      · rw [hframe]
        -- The frame does not reach back to the TTL.
        refine congrArg (fun bs => r.tap.written ++ [bs]) (Buffer.read_congr fun j hj _ => ?_)
        exact decrTTL_behind pkt (Nat.lt_of_lt_of_le (by decide) hj)

/-- A kernel in which every hardware address belongs to the device 30. -/
def localDevice : Net where
  devGetByIndex _ := none
  devGetbyhwaddr _ := some 30

/-- The module of station 1 behind a frame for the address 0 at the time 0. -/
def deliveringModule : AwdsModule :=
  (relayModule true).setSock 1
    { ifcount := 1, interf := some 1, table := { entries := [⟨List.replicate 6 0, 0⟩] } }

/-- A packet from station 3 to station 1 of the type `type`, with a frame for the address 0. -/
def arrivingPacket (type : Nat) : BasePacket :=
  let p := SrcPacket.setSrc (BasePacket.new.setType .unicast) 3
  let p := UnicastPacket.setNextHop (UnicastPacket.setUcDest p 1) 1
  { UnicastPacket.setUcPacketType (UnicastPacket.setTTL p 32) type with size := 37 }

/-- A frame of the tap interface. -/
theorem local_delivery_agrees_tap :
    Injects localDevice { now := 5 } deliveringModule
      { skbOf (arrivingPacket 0x62) with dev := 10 } 30 (List.replicate 14 0) ∧
    WritesFrame (pairHosts false) ⟨0, 0⟩ relayRouting (arrivingPacket 0x62)
      (List.replicate 14 0) := by
  have hinject : Injects localDevice { now := 5 } deliveringModule
      { skbOf (arrivingPacket 0x62) with dev := 10 } 30 (List.replicate 14 0) := ⟨_, rfl⟩
  exact ⟨hinject, (local_delivery_agrees ⟨rfl, rfl, rfl⟩ (by decide +kernel) hinject).mpr
    ⟨rfl, ⟨rfl, by decide +kernel, by decide +kernel⟩, by decide +kernel, by decide +kernel⟩⟩

/-- A packet of the pinger, whose payload reads as a frame: the module gives it to a device and
the daemon would have answered the ping. -/
theorem local_delivery_disagrees :
    Injects localDevice { now := 5 } deliveringModule
      { skbOf (arrivingPacket 42) with dev := 10 } 30 (List.replicate 14 0) ∧
    ¬ WritesFrame (pairHosts false) ⟨0, 0⟩ relayRouting (arrivingPacket 42)
      (List.replicate 14 0) := by
  refine ⟨⟨_, rfl⟩, ?_⟩
  rintro ⟨-, r1, pkt1, r2, pkt2, hrun, hproto, -⟩
  have hplain : PlainUnicast (arrivingPacket 42) := by
    show (arrivingPacket 42).buffer 0 = 2
    rfl
  rw [recvUnicast_plain hplain, if_neg (by decide +kernel), if_neg (by decide +kernel),
    if_pos (by decide +kernel)] at hrun
  cases hrun
  have hwrong : UnicastPacket.getUcPacketType (UnicastPacket.decrTTL (arrivingPacket 42)) = 42 := by
    decide +kernel
  rw [hwrong] at hproto
  exact absurd hproto (by decide)

end

end Awds.Proofs
