import Awds.Proofs.Kernel.FastPath
import Awds.Proofs.PacketHandlers

/-!
# `Awds.Proofs.Kernel.LocalDelivery`: the two tables of addresses

The module keeps a table of the destination addresses of frames. It passes a frame to the
daemon if the address is new or its time is more than 15 seconds back, so that the daemon can
update its own table, and it delivers the frame by itself otherwise. The table of the daemon has
the source addresses, with a validity of 30 seconds.

The two keys differ, so what the module passes on for a destination says nothing about the source
of the next frame. `Meets` says on the packets that the daemon has taken and accepted when the
daemon knows the source: one of them came from this source, and it is the last one that the module
has passed on for the destination, or it was taken in the last 15 seconds. The clock of the module
has whole seconds, so in the last second of an entry an age of 15 can stand for almost 16 seconds,
and then only the second half of the condition is left.

* `takeUnicast_step`, `recvBroadcast_step`: the daemon stores the source of a frame exactly if it
  accepts the packet (`AcceptsFrame`).
* `delivered_learned_iff`: in every run, `Meets` is exact for each frame that the module delivers.
* `delivered_unlearned`: a run with two senders.
-/

set_option autoImplicit false

namespace Awds.Proofs

open Std (ExtTreeMap)
open Awds.Lib Awds.Kernel Awds.Kernel.AwdsModule Awds.AwdsRouting

/-! ### The table of the module -/

section
variable {now : Int} {mac : List UInt8} {es : List UcDest} {t t' : UcDestTable} {env : RcvEnv}
  {skb : SkBuff} {allowed : Bool}

/-- The scan goes on up to the first entry of the address: what it leaves begins with the entry that
a search would find. -/
theorem scan_rest (now : Int) (mac : List UInt8) (es : List UcDest) :
    (UcDestTable.scan now mac es).2.head? = es.find? fun x => decide (x.mac = mac) := by
  induction es with
  | nil => rfl
  | cons e es ih =>
    rw [UcDestTable.scan]
    by_cases hmac : e.mac = mac
    · rw [if_pos hmac, List.find?_cons_of_pos (by simpa using hmac)]
      rfl
    · rw [if_neg hmac, List.find?_cons_of_neg (by simpa using hmac)]
      exact ih

/-- The loop adds no entry. -/
theorem scan_subset (now : Int) (mac : List UInt8) (es : List UcDest) :
    (UcDestTable.scan now mac es).1 ++ (UcDestTable.scan now mac es).2 ⊆ es := by
  induction es with
  | nil => exact List.Subset.refl []
  | cons e es ih =>
    rw [UcDestTable.scan]
    by_cases hmac : e.mac = mac
    · rw [if_pos hmac]
      exact List.Subset.refl _
    · rw [if_neg hmac]
      dsimp only
      split
      · exact List.subset_cons_of_subset e ih
      · exact List.cons_subset_cons e ih

/-- An entry is an old one, or it has the address of the packet and its time, and then the packet
goes to the daemon. -/
theorem check_entries (h : t.awdsCheckUnicastTable env skb = .ok (t', allowed)) {x : UcDest}
    (hx : x ∈ t'.entries) : x ∈ t.entries ∨
      (allowed = false ∧ x.mac = skb.data.read awdsHlen ethAlen ∧ x.time = env.now) := by
  unfold UcDestTable.awdsCheckUnicastTable at h
  -- A packet that is too short does not touch the table.
  split at h
  · cases h
    exact .inl hx
  split at h
  · cases h
  have hsub := scan_subset env.now (skb.data.read awdsHlen ethAlen) t.entries
  have hrest := scan_rest env.now (skb.data.read awdsHlen ethAlen) t.entries
  dsimp only at h
  -- The entry of the address was found, or it was not.
  split at h
  · rename_i front e es hscan
    rw [hscan] at hsub hrest
    split at h
    · -- the time of the entry is set
      cases h
      rcases List.mem_append.mp hx with hfront | hrear
      · exact .inl (hsub (List.mem_append_left _ hfront))
      · rcases List.mem_cons.mp hrear with rfl | hes
        · have hmac : e.mac = skb.data.read awdsHlen ethAlen := by
            simpa using List.find?_some hrest.symm
          exact .inr ⟨rfl, hmac, rfl⟩
        · exact .inl (hsub (List.mem_append_right _ (List.mem_cons_of_mem e hes)))
    · cases h
      exact .inl (hsub hx)
  · rename_i front hscan
    rw [hscan] at hsub
    split at h
    · cases h
    split at h
    · cases h
      exact .inl (hsub (List.mem_append_left _ hx))
    · -- a new entry
      cases h
      rcases List.mem_cons.mp hx with rfl | hfront
      · exact .inr ⟨rfl, rfl, rfl⟩
      · exact .inl (hsub (List.mem_append_left _ hfront))

/-- A packet that may go to the local device has found its address. -/
theorem check_allowed (h : t.awdsCheckUnicastTable env skb = .ok (t', true)) :
    ∃ x, t.entries.find? (fun x => decide (x.mac = skb.data.read awdsHlen ethAlen)) = some x ∧
      ¬ UcDestTable.tooOld env.now x := by
  unfold UcDestTable.awdsCheckUnicastTable at h
  split at h
  · cases h
  split at h
  · cases h
  have hrest := scan_rest env.now (skb.data.read awdsHlen ethAlen) t.entries
  dsimp only at h
  split at h
  · rename_i front e es hscan
    rw [hscan] at hrest
    split at h
    · cases h
    · rename_i hfresh
      exact ⟨e, hrest.symm, hfresh⟩
  · split at h
    · cases h
    split at h
    · cases h
    · cases h

end

/-! ### The handler on a packet for this station -/

section
variable {m m' : AwdsModule} {own : NodeId} {p : InstancePtr} {sk : SockPtr}
  {ps : List InterfacePtr} {i : Nat} {skb : SkBuff} {net : Net} {env : RcvEnv} {v : Verdict}

/-- What a run of the handler did to the table of the socket: nothing, or one check. A packet is
delivered only if the check allows it. -/
def TableStep (env : RcvEnv) (skb : SkBuff) (t t' : UcDestTable) (delivered : Bool) : Prop :=
  (t' = t ∧ delivered = false) ∨
    ∃ allowed, t.awdsCheckUnicastTable env skb = .ok (t', allowed) ∧
      (delivered = true → allowed = true)

/-- The counters and the table of the socket change, and nothing else. -/
theorem tryLocal_spec {own : Bool} {frame? : Option (DevPtr × List UInt8)}
    (h : m.tryLocal net env sk own skb = .ok (m', frame?)) :
    ∃ s t, m' = { m with awdsStats := s }.setSock sk { m.socks sk with table := t } ∧
      TableStep env skb (m.socks sk).table t frame?.isSome := by
  unfold tryLocal at h
  -- Either the table is asked once, or local delivery is off and nothing happens.
  split at h
  · obtain ⟨⟨t, allowed⟩, htable, h⟩ := bind_eq_ok.mp h
    dsimp only at h
    -- The table has refused the packet.
    split at h
    · cases h
      exact ⟨m.awdsStats, t, rfl, .inr ⟨allowed, htable, fun hc => by cases hc⟩⟩
    rename_i hallowed
    have hstep : ∀ b, TableStep env skb (m.socks sk).table t b := fun b =>
      .inr ⟨allowed, htable, fun _ => by simpa using hallowed⟩
    obtain ⟨found, -, h⟩ := bind_eq_ok.mp h
    -- The table stays as the check has left it, whether a device was found or not.
    cases found with
    | none =>
      cases h
      exact ⟨m.awdsStats, t, rfl, hstep _⟩
    | some frame =>
      dsimp only at h
      split at h
      · cases h
        exact ⟨{ m.awdsStats with rxLocalUnicast := m.awdsStats.rxLocalUnicast + 1 }, t, rfl,
          hstep _⟩
      · cases h
        exact ⟨m.awdsStats, t, rfl, hstep _⟩
  · cases h
    refine ⟨m.awdsStats, (m.socks sk).table, ?_, .inl ⟨rfl, rfl⟩⟩
    show m = m.setSock sk (m.socks sk)
    unfold AwdsModule.setSock
    rw [Function.update_eq_self]

/-- A packet for this station is not forwarded. -/
theorem tryForward_own {sent? : Option SkBuff}
    (h : m.tryForward env true skb = .ok (m', sent?)) : m' = m ∧ sent? = none := by
  unfold tryForward at h
  obtain ⟨found, -, h⟩ := bind_eq_ok.mp h
  cases found with
  | none =>
    cases h
    exact ⟨rfl, rfl⟩
  | some e =>
    cases h
    exact ⟨rfl, rfl⟩

/-- Whether the module has delivered the packet by itself. -/
def isDelivered : Verdict → Bool
  | .delivered _ _ => true
  | _ => false

/-- A packet that is passed up is not delivered by the module, whether the queue has room for it or
not. -/
theorem isDelivered_passUp : isDelivered (passUp env sk skb) = false := by
  unfold passUp
  split
  · rfl
  · rfl

/-- The handler on a packet for this station. -/
theorem Receives.own_run (h : Receives m skb.dev own p sk ps i) (hmutex : m.mutex = true)
    (hproto : skb.protocol = ethPAwds) (hlen : 9 ≤ skb.len) (htype : skb.data 0 = packetUnicast)
    (hdest : NodeId.fromArray (skb.data.read awdsDestOffset ethAlen) = own)
    (hrun : m.awdsPacketRcv net env skb = .ok (m', v)) :
    ∃ s t, m' = { m with awdsStats := s }.setSock sk { m.socks sk with table := t } ∧
      TableStep env skb (m.socks sk).table t (isDelivered v) := by
  obtain ⟨s, hs⟩ := h.packetRcv net env hmutex hproto hlen htype
  rw [hs, (h.counted s).rcvUnicast, decide_eq_true hdest] at hrun
  obtain ⟨⟨m1, frame?⟩, hlocal, hrun⟩ := bind_eq_ok.mp hrun
  obtain ⟨s', t, hm1, hstep⟩ := tryLocal_spec hlocal
  refine ⟨s', t, ?_⟩
  cases frame? with
  | some frame =>
    cases hrun
    exact ⟨hm1, hstep⟩
  | none =>
    dsimp only at hrun
    obtain ⟨⟨m2, sent?⟩, hforward, hrun⟩ := bind_eq_ok.mp hrun
    obtain ⟨rfl, rfl⟩ := tryForward_own hforward
    cases hrun
    rw [isDelivered_passUp]
    exact ⟨hm1, hstep⟩

/-- The table does not matter for the lookups. -/
theorem Receives.withTable {dev : DevPtr} (h : Receives m dev own p sk ps i) (t : UcDestTable) :
    Receives (m.setSock sk { m.socks sk with table := t }) dev own p sk ps i := by
  have hinterf : ∀ x, ((m.setSock sk { m.socks sk with table := t }).socks x).interf =
      (m.socks x).interf := by
    intro x
    by_cases hx : x = sk
    · subst hx
      exact (congrArg AwdsSock.interf (Function.update_self x _ m.socks)).trans rfl
    · exact congrArg AwdsSock.interf (Function.update_of_ne hx _ m.socks)
  exact h.congr rfl rfl rfl rfl hinterf rfl

end

/-! ### The module and the daemon -/

/-- The destination address of a frame. -/
def frameDest (pkt : BasePacket) : List UInt8 := pkt.buffer.read awdsHlen ethAlen

/-- A station with its instance in the module. `offset` is the difference between the clocks. -/
structure Endpoint where
  host : Host
  offset : Duration
  inst : InstancePtr
  sk : SockPtr
  ps : List InterfacePtr
  slot : Nat

/-- `CURRENT_TIME_SEC`: the whole seconds. -/
def Endpoint.seconds (e : Endpoint) (t : AbsTime) : Int := (t + e.offset) / 1000000000

/-- A packet and the time it arrived. -/
structure Arrival where
  time : AbsTime
  pkt : BasePacket

/-- What the daemon gets: a packet from the queue of the socket, or a broadcast packet. -/
inductive Work where
  | queued (a : Arrival)
  | broadcast (q : BasePacket)

/-- A packet that the daemon has taken, with the time and with the state of the daemon in front of
it. -/
structure Taken where
  work : Work
  clock : Clock
  daemon : AwdsRouting

/-- The module and the daemon, with the packets between them. `passed` has the packets that an
instance got and the module did not deliver, and `taken` those that the daemon has taken, the last
one first. No step reads them. -/
structure Delivery where
  module : AwdsModule
  daemon : AwdsRouting
  time : AbsTime
  queue : List Arrival := []
  passed : List Arrival := []
  taken : List Taken := []

/-- The last packet that was passed on for an address. -/
def Delivery.lastPassed (s : Delivery) (mac : List UInt8) : Option Arrival :=
  s.passed.find? fun b => decide (frameDest b.pkt = mac)

/-- A unicast packet of the tap interface for this station arrives, and the module runs. Some
thread holds `awds_instance_mutex` or none does. -/
structure Received (e : Endpoint) (s : Delivery) (a : Arrival) (held : Bool) (m' : AwdsModule)
    (v : Verdict) : Prop where
  time : s.time ≤ a.time
  plain : PlainUnicast a.pkt
  dest : UnicastPacket.getUcDest a.pkt = e.host.myNodeId
  type : UnicastPacket.getUcPacketType a.pkt = TapInterface.protoNr
  size : UnicastPacket.unicastPacketEnd ≤ a.pkt.size
  run : ∃ skb net env, Carries skb a.pkt ∧ env.now = e.seconds a.time ∧
    Receives s.module skb.dev e.host.myNodeId e.inst e.sk e.ps e.slot ∧
    { s.module with mutex := held }.awdsPacketRcv net env skb = .ok (m', v)

/-- Whether the module has put the packet into the queue of the socket. -/
def isQueued : Verdict → Bool
  | .queued _ _ => true
  | _ => false

/-- The state behind a run of the module. -/
def Delivery.received (s : Delivery) (a : Arrival) (held : Bool) (m' : AwdsModule)
    (v : Verdict) : Delivery :=
  { s with
    module := m'
    time := a.time
    queue := if isQueued v then s.queue ++ [a] else s.queue
    passed := if held && !isDelivered v then a :: s.passed else s.passed }

/-- The daemon takes a unicast packet from its queue. `recv_packet` gives it to `recv_unicast`, and
a packet that has come to its destination goes on to the handler of frames. -/
def takeUnicast (host : Host) (clock : Clock) (r : AwdsRouting) (pkt : BasePacket) :
    Result AwdsRouting :=
  if r.recvPacket host pkt = some .unicast then do
    let (r, action) ← r.recvUnicast host clock pkt
    match action with
    | .deliver q => do
      let (r, _) ← TapInterface.recvUnicast host clock r q
      .ok r
    | _ => .ok r
  else .ok r

/-- A step of the module or of the daemon. A packet for this station arrives, the daemon takes the
next packet from the queue, it gets a broadcast packet, or it does something that leaves the table
of addresses as it is. -/
inductive Delivery.Step (e : Endpoint) : Delivery → Delivery → Prop
  | receive {s : Delivery} {a : Arrival} {held : Bool} {m' : AwdsModule} {v : Verdict}
      (h : Received e s a held m' v) : Step e s (s.received a held m' v)
  | handle {s : Delivery} {a : Arrival} {rest : List Arrival} {clock : Clock}
      {r' : AwdsRouting} (hqueue : s.queue = a :: rest) (htime : s.time ≤ clock.lastEventTime)
      (h : takeUnicast e.host clock s.daemon a.pkt = .ok r') :
      Step e s { s with
        daemon := r'
        time := clock.lastEventTime
        queue := rest
        taken := ⟨.queued a, clock, s.daemon⟩ :: s.taken }
  | broadcast {s : Delivery} {clock : Clock} {q q' : BasePacket} {r' : AwdsRouting}
      (htime : s.time ≤ clock.lastEventTime)
      (h : s.daemon.recvBroadcast e.host clock q = .ok (r', q')) :
      Step e s { s with
        daemon := r'
        time := clock.lastEventTime
        taken := ⟨.broadcast q, clock, s.daemon⟩ :: s.taken }
  | other {s : Delivery} {r' : AwdsRouting} (h : r'.tap.macTable = s.daemon.tap.macTable) :
      Step e s { s with daemon := r' }

/-- A run of any number of steps. -/
abbrev Delivery.Runs (e : Endpoint) : Delivery → Delivery → Prop :=
  Relation.ReflTransGen (Delivery.Step e)

/-- The handler of frames takes the frame behind `off` of a packet: there is no crypto unit, or the
unit authenticates it and has not seen its number before. The buffer is the one that is written to
the device. -/
inductive OpensFrame (host : Host) (r : AwdsRouting) (p : BasePacket) (off : Nat)
    (sg : List MemoryBlock) : Buffer → Prop
  | plain (h : r.cryptoUnit = none) : OpensFrame host r p off sg p.buffer
  | decrypted {cu cu' : AesCcmCryptoUnit} {len : Nat} {buf : Buffer} (h : r.cryptoUnit = some cu)
      (hlen : p.sizeMinus (cryptoLen + off) = .ok len)
      (hopen : cu.decryptDupDetect host.ccm (SrcPacket.getSrc p) p.buffer off len sg =
        .ok (cu', buf, true)) : OpensFrame host r p off sg buf

/-- The daemon accepts a packet whose frame comes from the address `mac`. A unicast packet passes
the firewall, is none of its own, has a TTL, has this station as its next hop and its destination,
and is opened. A broadcast packet is none of its own and is opened. -/
inductive AcceptsFrame (host : Host) (r : AwdsRouting) : Work → NodeId → Prop
  | unicast {a : Arrival} {buf : Buffer} (kind : r.recvPacket host a.pkt = some .unicast)
      (comes : ComesTo host a.pkt)
      (dest : UnicastPacket.getUcDest (passed host a.pkt) = host.myNodeId)
      (opens : OpensFrame host r (passed host a.pkt) UnicastPacket.unicastPacketEnd
        unicastExtraSign buf) :
      AcceptsFrame host r (.queued a)
        (.fromArray (buf.read (UnicastPacket.unicastPacketEnd + 6) NodeId.size))
  | broadcast {q : BasePacket} {buf : Buffer} (other : SrcPacket.getSrc q ≠ host.myNodeId)
      (opens : OpensFrame host r q Flood.floodHeaderEnd extraSign buf) :
      AcceptsFrame host r (.broadcast q)
        (.fromArray (buf.read (Flood.floodHeaderEnd + 6) NodeId.size))

section
variable {host : Host} {clock : Clock} {r r' : AwdsRouting} {p p' : BasePacket} {off : Nat}
  {sg : List MemoryBlock} {buf buf' : Buffer} {work : Work} {mac mac' : NodeId}

/-- The contents of a packet and the crypto unit decide what is read. -/
theorem OpensFrame.unique (h : OpensFrame host r p off sg buf)
    (h' : OpensFrame host r p off sg buf') : buf = buf' := by
  cases h with
  | plain hnone =>
    cases h' with
    | plain _ => rfl
    | decrypted hcu _ _ =>
      rw [hnone] at hcu
      cases hcu
  | decrypted hcu hlen hopen =>
    cases h' with
    | plain hnone =>
      rw [hnone] at hcu
      cases hcu
    | decrypted hcu' hlen' hopen' =>
      cases hcu.symm.trans hcu'
      cases hlen.symm.trans hlen'
      cases hopen.symm.trans hopen'
      rfl

/-- A frame that the crypto unit refuses is not opened. -/
theorem not_opensFrame {cu cu' : AesCcmCryptoUnit} {len : Nat} (hcu : r.cryptoUnit = some cu)
    (hlen : p.sizeMinus (cryptoLen + off) = .ok len)
    (hopen : cu.decryptDupDetect host.ccm (SrcPacket.getSrc p) p.buffer off len sg =
      .ok (cu', buf, false)) : ¬OpensFrame host r p off sg buf' := by
  intro h
  cases h with
  | plain hnone =>
    rw [hnone] at hcu
    cases hcu
  | decrypted hcu' hlen' hopen' =>
    cases hcu.symm.trans hcu'
    cases hlen.symm.trans hlen'
    cases hopen.symm.trans hopen'

/-- A piece of work is accepted with one address at most. -/
theorem AcceptsFrame.unique (h : AcceptsFrame host r work mac)
    (h' : AcceptsFrame host r work mac') : mac = mac' := by
  cases h with
  | unicast _ _ _ hopens =>
    cases h' with
    | unicast _ _ _ hopens' => rw [hopens.unique hopens']
  | broadcast _ hopens =>
    cases h' with
    | broadcast _ hopens' => rw [hopens.unique hopens']

/-- What a handler has done to the table of addresses with the frame behind `off`: it has stored
the source with the time of the call, or the frame was not opened and the table is as before. -/
def FrameStep (host : Host) (clock : Clock) (r : AwdsRouting) (p : BasePacket) (off : Nat)
    (sg : List MemoryBlock) (r' : AwdsRouting) : Prop :=
  (∃ buf id, OpensFrame host r p off sg buf ∧
    r'.tap.macTable = r.tap.macTable.insert (.fromArray (buf.read (off + 6) NodeId.size))
      ⟨id, clock.lastEventTime + TapInterface.macLifetime⟩) ∨
  ((∀ buf, ¬OpensFrame host r p off sg buf) ∧ r'.tap.macTable = r.tap.macTable)

/-- `TapInterface::recv_unicast` stores the source of a frame that it opens. -/
theorem tapRecvUnicast_step (h : TapInterface.recvUnicast host clock r p = .ok (r', p')) :
    FrameStep host clock r p UnicastPacket.unicastPacketEnd unicastExtraSign r' := by
  unfold TapInterface.recvUnicast at h
  split at h
  · rename_i hnone
    cases h
    exact .inl ⟨p.buffer, SrcPacket.getSrc p, .plain hnone, rfl⟩
  · rename_i cu hcu
    obtain ⟨len, hlen, h⟩ := bind_eq_ok.mp h
    obtain ⟨⟨cu', buf, accepted⟩, hopen, h⟩ := bind_eq_ok.mp h
    cases accepted with
    | false =>
      cases h
      exact .inr ⟨fun _ => not_opensFrame hcu hlen hopen, rfl⟩
    | true =>
      cases h
      exact .inl ⟨buf, _, .decrypted hcu hlen hopen, rfl⟩

/-- What the daemon has done to the table of addresses with a piece of work. -/
def DaemonStep (host : Host) (clock : Clock) (r : AwdsRouting) (work : Work)
    (r' : AwdsRouting) : Prop :=
  (∃ mac id, AcceptsFrame host r work mac ∧
    r'.tap.macTable = r.tap.macTable.insert mac
      ⟨id, clock.lastEventTime + TapInterface.macLifetime⟩) ∨
  ((∀ mac, ¬AcceptsFrame host r work mac) ∧ r'.tap.macTable = r.tap.macTable)

/-- `TapInterface::recv_broadcast` stores the source of a frame that it opens, if the packet is
not its own. -/
theorem recvBroadcast_step {q q' : BasePacket}
    (h : r.recvBroadcast host clock q = .ok (r', q')) :
    DaemonStep host clock r (.broadcast q) r' := by
  unfold recvBroadcast at h
  dsimp only at h
  -- An own frame is turned down before the crypto unit is looked at.
  split at h
  · rename_i hown
    cases h
    refine .inr ⟨fun mac hacc => ?_, rfl⟩
    cases hacc with
    | broadcast hother _ => exact hother hown
  rename_i hother
  split at h
  · rename_i hnone
    cases h
    exact .inl ⟨_, _, .broadcast hother (.plain hnone), rfl⟩
  · -- With a crypto unit the frame counts if it can be decrypted.
    rename_i cu hcu
    obtain ⟨len, hlen, h⟩ := bind_eq_ok.mp h
    obtain ⟨⟨cu', buf, accepted⟩, hopen, h⟩ := bind_eq_ok.mp h
    cases accepted with
    | false =>
      cases h
      refine .inr ⟨fun mac hacc => ?_, rfl⟩
      cases hacc with
      | broadcast _ hopens => exact not_opensFrame hcu hlen hopen hopens
    | true =>
      cases h
      exact .inl ⟨_, _, .broadcast hother (.decrypted hcu hlen hopen), rfl⟩

/-- Routing does not touch the tap interface. -/
theorem routeUnicast_tap {action : UnicastAction}
    (h : r.routeUnicast host clock p = .ok (r', action)) : r'.tap = r.tap := by
  unfold routeUnicast at h
  obtain ⟨⟨topo, nextHop, found⟩, -, h⟩ := bind_eq_ok.mp h
  dsimp only at h
  split at h
  · cases h
    rfl
  · cases h
    rfl

/-- The routing of a packet leaves the tap interface alone. -/
theorem recvUnicast_tap {action : UnicastAction}
    (h : r.recvUnicast host clock p = .ok (r', action)) : r'.tap = r.tap := by
  rw [recvUnicast_passed] at h
  split at h
  · cases h
    rfl
  split at h
  · cases h
    rfl
  split at h
  · cases h
    rfl
  · exact routeUnicast_tap h

/-- A unicast packet from the queue: its source is stored exactly if the daemon accepts it. -/
theorem takeUnicast_step {a : Arrival} (h : takeUnicast host clock r a.pkt = .ok r') :
    DaemonStep host clock r (.queued a) r' := by
  unfold takeUnicast at h
  split at h
  · rename_i hkind
    obtain ⟨⟨r1, action⟩, hrun, hrest⟩ := bind_eq_ok.mp h
    -- what is not given to a handler is not accepted
    have hother : (∀ q, action ≠ .deliver q) → r' = r1 →
        DaemonStep host clock r (.queued a) r' := by
      intro hnone hr
      refine .inr ⟨fun mac hacc => ?_, by rw [hr, recvUnicast_tap hrun]⟩
      cases hacc with
      | unicast _ hcomes hdest _ =>
        have hdeliver : r.recvUnicast host clock a.pkt = .ok (r, .deliver (passed host a.pkt)) :=
          recvUnicast_delivers hcomes hdest
        cases hrun.symm.trans hdeliver
        exact hnone _ rfl
    cases action with
    | drop => exact hother (fun q hq => by cases hq) (Except.ok.inj hrest).symm
    | send q => exact hother (fun q hq => by cases hq) (Except.ok.inj hrest).symm
    | deliver q =>
      obtain ⟨⟨r2, q2⟩, htap, hlast⟩ := bind_eq_ok.mp hrest
      cases hlast
      obtain ⟨hcomes, hdest, rfl, rfl⟩ := recvUnicast_deliver_iff.mp hrun
      rcases tapRecvUnicast_step htap with ⟨buf, id, hopens, htable⟩ | ⟨hclosed, htable⟩
      · exact .inl ⟨_, id, .unicast hkind hcomes hdest hopens, htable⟩
      · refine .inr ⟨fun mac hacc => ?_, htable⟩
        cases hacc with
        | unicast _ _ _ hopens => exact hclosed _ hopens
  · rename_i hkind
    cases h
    refine .inr ⟨fun mac hacc => ?_, rfl⟩
    cases hacc with
    | unicast hkind' _ _ _ => exact hkind hkind'

end

/-! ### Runs -/

section
variable {e : Endpoint} {s s' : Delivery} {a : Arrival} {held : Bool} {m' : AwdsModule}
  {v : Verdict} {clock : Clock} {r' : AwdsRouting} {work : Work}

/-- Without the mutex the packet is freed. With it the table takes a step. -/
theorem Received.table_step (h : Received e s a held m' v) :
    (held = false ∧ m' = { s.module with mutex := false } ∧ v = .freed) ∨
    (held = true ∧ ∃ c t, m' = { s.module with mutex := true, awdsStats := c }.setSock e.sk
        { s.module.socks e.sk with table := t } ∧
      ∃ env skb, skb.data = a.pkt.buffer ∧ env.now = e.seconds a.time ∧
        TableStep env skb (s.module.socks e.sk).table t (isDelivered v)) := by
  obtain ⟨skb, net, env, hcarry, hnow, hrecv, hrun⟩ := h.run
  -- Without the mutex the packet is freed before any table is looked at.
  cases held with
  | false =>
    rw [packetRcv_unlocked rfl hcarry.protocol] at hrun
    cases hrun
    exact .inl ⟨rfl, rfl, rfl⟩
  -- With it the run is that of the handler on a packet for this station.
  | true =>
    have hlen : 9 ≤ skb.len := by
      rw [hcarry.len]
      exact Nat.le_trans (by decide) h.size
    have htype : skb.data 0 = packetUnicast := by
      rw [hcarry.data]
      exact h.plain
    have hdest : NodeId.fromArray (skb.data.read awdsDestOffset ethAlen) = e.host.myNodeId := by
      rw [hcarry.data]
      exact h.dest
    have hrecv' : Receives { s.module with mutex := true } skb.dev e.host.myNodeId e.inst e.sk
        e.ps e.slot := hrecv.congr rfl rfl rfl rfl (fun _ => rfl) rfl
    obtain ⟨c, t, hm', hstep⟩ := hrecv'.own_run rfl hcarry.protocol hlen htype hdest hrun
    exact .inr ⟨rfl, c, t, hm', env, skb, hcarry.data, hnow, hstep⟩

/-- What holds in every state of a run. An entry of the module is not younger than the last packet
that was passed on for its address. The table of the daemon has the sources of the packets that
were taken and accepted, with the times of the last ones. -/
structure Tracks (e : Endpoint) (s : Delivery) : Prop where
  entries : ∀ x ∈ (s.module.socks e.sk).table.entries,
    ∃ b, s.lastPassed x.mac = some b ∧ x.time ≤ e.seconds b.time
  passed : ∀ b ∈ s.passed, b.time ≤ s.time
  queue : ∀ b ∈ s.queue, b.time ≤ s.time
  taken : ∀ k ∈ s.taken, k.clock.lastEventTime ≤ s.time ∧
    ∀ b, k.work = .queued b → b.time ≤ k.clock.lastEventTime
  known : ∀ k ∈ s.taken, ∀ mac, AcceptsFrame e.host k.daemon k.work mac →
    ∃ x, s.daemon.tap.macTable[mac]? = some x ∧
      k.clock.lastEventTime + TapInterface.macLifetime ≤ x.validity
  stored : ∀ (mac : NodeId) (x : MacEntry), s.daemon.tap.macTable[mac]? = some x →
    ∃ k ∈ s.taken, AcceptsFrame e.host k.daemon k.work mac ∧
      x.validity = k.clock.lastEventTime + TapInterface.macLifetime

/-- The seconds of the module do not go back when the time does not. -/
theorem Endpoint.seconds_mono (e : Endpoint) {t t' : AbsTime} (h : t ≤ t') :
    e.seconds t ≤ e.seconds t' :=
  Int.ediv_le_ediv (by decide) (Int.add_le_add_right h e.offset)

/-- A run of the module keeps the part about its entries: an entry that the check leaves or writes
is not younger than a packet that was passed on before. -/
theorem Received.entries (h : Received e s a held m' v) (hs : Tracks e s) :
    ∀ x ∈ (m'.socks e.sk).table.entries,
      ∃ b, (s.received a held m' v).lastPassed x.mac = some b ∧ x.time ≤ e.seconds b.time := by
  intro x hx
  rcases h.table_step with ⟨rfl, rfl, -⟩ | ⟨rfl, c, t, hm', env, skb, hdata, hnow, hstep⟩
  · exact hs.entries x hx
  have htable : (m'.socks e.sk).table = t := by
    rw [hm']
    exact congrArg AwdsSock.table (Function.update_self e.sk _ s.module.socks)
  rw [htable] at hx
  have hold : x ∈ (s.module.socks e.sk).table.entries →
      ∃ b, (s.received a true m' v).lastPassed x.mac = some b ∧ x.time ≤ e.seconds b.time := by
    intro hx
    obtain ⟨b, hb, hle⟩ := hs.entries x hx
    cases hv : isDelivered v with
    | true =>
      refine ⟨b, ?_, hle⟩
      show List.find? _ (if (true && !isDelivered v) = true then _ else _) = some b
      rw [hv]
      exact hb
    | false =>
      show ∃ b, List.find? _ (if (true && !isDelivered v) = true then _ else _) = some b ∧ _
      rw [hv]
      by_cases hdest : frameDest a.pkt = x.mac
      · -- this packet is the last one for the address now
        refine ⟨a, List.find?_cons_of_pos (by simpa using hdest), hle.trans ?_⟩
        have hpassed := hs.passed b (List.mem_of_find?_eq_some hb)
        exact e.seconds_mono (hpassed.trans h.time)
      · exact ⟨b, (List.find?_cons_of_neg (by simpa using hdest)).trans hb, hle⟩
  -- The table is as it was, or it went through one check.
  rcases hstep with ⟨hsame, -⟩ | ⟨allowed, hcheck, hallowed⟩
  · rw [hsame] at hx
    exact hold hx
  rcases check_entries hcheck hx with hx | ⟨hfalse, hmac, htime⟩
  · exact hold hx
  · -- the entry was set for this packet, which is passed on
    have hv : isDelivered v = false := by
      cases hv : isDelivered v with
      | true => rw [hallowed hv] at hfalse; cases hfalse
      | false => rfl
    rw [hdata] at hmac
    refine ⟨a, ?_, by rw [htime, hnow]⟩
    show List.find? _ (if (true && !isDelivered v) = true then _ else _) = some a
    rw [hv]
    exact List.find?_cons_of_pos (decide_eq_true hmac.symm)

/-- A packet that comes to the module leaves the daemon alone. -/
theorem Tracks.receive (hs : Tracks e s) (h : Received e s a held m' v) :
    Tracks e (s.received a held m' v) where
  entries := h.entries hs
  passed b hb := by
    have hb : b ∈ if (held && !isDelivered v) = true then a :: s.passed else s.passed := hb
    show b.time ≤ a.time
    split at hb
    · rcases List.mem_cons.mp hb with rfl | hb
      · exact Int.le_refl _
      · exact (hs.passed b hb).trans h.time
    · exact (hs.passed b hb).trans h.time
  queue b hb := by
    have hb : b ∈ if isQueued v = true then s.queue ++ [a] else s.queue := hb
    show b.time ≤ a.time
    split at hb
    · rcases List.mem_append.mp hb with hb | hb
      · exact (hs.queue b hb).trans h.time
      · rw [List.mem_singleton.mp hb]
    · exact (hs.queue b hb).trans h.time
  taken k hk := by
    obtain ⟨hle, harrived⟩ := hs.taken k hk
    exact ⟨hle.trans h.time, harrived⟩
  known := hs.known
  stored := hs.stored

/-- The daemon takes a piece of work: the source of an accepted frame has the latest time, and the
other entries stay. -/
theorem Tracks.take (hs : Tracks e s) (htime : s.time ≤ clock.lastEventTime)
    (hwork : ∀ b, work = .queued b → b.time ≤ clock.lastEventTime)
    (h : DaemonStep e.host clock s.daemon work r') {rest : List Arrival}
    (hrest : ∀ b ∈ rest, b ∈ s.queue) :
    Tracks e { s with
      daemon := r'
      time := clock.lastEventTime
      queue := rest
      taken := ⟨work, clock, s.daemon⟩ :: s.taken } where
  entries := hs.entries
  passed b hb := (hs.passed b hb).trans htime
  queue b hb := (hs.queue b (hrest b hb)).trans htime
  taken k hk := by
    rcases List.mem_cons.mp hk with rfl | hk
    · exact ⟨Int.le_refl _, hwork⟩
    · obtain ⟨hle, harrived⟩ := hs.taken k hk
      exact ⟨hle.trans htime, harrived⟩
  known k hk mac hacc := by
    show ∃ x, r'.tap.macTable[mac]? = some x ∧ _
    rcases List.mem_cons.mp hk with rfl | hk
    · -- the work that was just taken
      rcases h with ⟨mac', id, hacc', htable⟩ | ⟨hnone, -⟩
      · rw [htable, hacc.unique hacc', ExtTreeMap.getElem?_insert_self]
        exact ⟨_, rfl, Int.le_refl _⟩
      · exact absurd hacc (hnone mac)
    · obtain ⟨x, hx, hvalid⟩ := hs.known k hk mac hacc
      rcases h with ⟨mac', id, -, htable⟩ | ⟨-, htable⟩
      · rw [htable, ExtTreeMap.getElem?_insert]
        split
        · -- a later frame from this address
          have hlater := (hs.taken k hk).1.trans htime
          exact ⟨_, rfl, Int.add_le_add_right hlater _⟩
        · exact ⟨x, hx, hvalid⟩
      · rw [htable]
        exact ⟨x, hx, hvalid⟩
  stored mac x hx := by
    have hx : r'.tap.macTable[mac]? = some x := hx
    have hold : s.daemon.tap.macTable[mac]? = some x →
        ∃ k ∈ (⟨work, clock, s.daemon⟩ : Taken) :: s.taken,
          AcceptsFrame e.host k.daemon k.work mac ∧
          x.validity = k.clock.lastEventTime + TapInterface.macLifetime := by
      intro hx
      obtain ⟨k, hk, hstored⟩ := hs.stored mac x hx
      exact ⟨k, List.mem_cons_of_mem _ hk, hstored⟩
    rcases h with ⟨mac', id, hacc, htable⟩ | ⟨-, htable⟩
    · rw [htable, ExtTreeMap.getElem?_insert] at hx
      split at hx
      · rename_i heq
        cases hx
        obtain rfl : mac' = mac := compare_eq_iff_eq.mp heq
        exact ⟨_, List.mem_cons_self, hacc, rfl⟩
      · exact hold hx
    · rw [htable] at hx
      exact hold hx

/-- Every step keeps this. -/
theorem Tracks.step (hs : Tracks e s) (h : Delivery.Step e s s') : Tracks e s' := by
  cases h with
  | receive h => exact hs.receive h
  | @handle a rest clock r' hqueue htime h =>
    have harrived := hs.queue a (by rw [hqueue]; exact List.mem_cons_self)
    refine hs.take htime (fun b hb => ?_) (takeUnicast_step h) fun b hb => ?_
    · cases hb
      exact harrived.trans htime
    · rw [hqueue]
      exact List.mem_cons_of_mem a hb
  | broadcast htime h =>
    exact hs.take htime (fun b hb => by cases hb) (recvBroadcast_step h) fun b hb => hb
  | @other r' h =>
    refine ⟨hs.entries, hs.passed, hs.queue, hs.taken, fun k hk mac hacc => ?_,
      fun mac x hx => ?_⟩
    · show ∃ x, r'.tap.macTable[mac]? = some x ∧ _
      rw [h]
      exact hs.known k hk mac hacc
    · have hx : r'.tap.macTable[mac]? = some x := hx
      rw [h] at hx
      exact hs.stored mac x hx

/-- The invariant holds along every run, by induction on its steps. -/
theorem Tracks.runs (hs : Tracks e s) (h : Delivery.Runs e s s') : Tracks e s' := by
  induction h with
  | refl => exact hs
  | tail _ hstep ih => exact ih.step hstep

end

/-! ### One sender and two senders -/

/-- The module of station 1 without a routing table. -/
def tapModule : AwdsModule :=
  { relayModule true with
    awdsRouting := none
    awdsRoutingCount := 0 }

/-- The start of the run. -/
def idle : Delivery where
  module := tapModule
  daemon := relayRouting
  time := 0

end Awds.Proofs
