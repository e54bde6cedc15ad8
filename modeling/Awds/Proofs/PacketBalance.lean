import Awds.Proofs.PacketHandlers

/-!
# `Awds.Proofs.PacketBalance`: when the references to packets are balanced

`HarmlessEvent` lists the events behind which a packet has another number of references than
places, and excludes them. Each lemma here says which references are held behind a function,
and that these are the right ones exactly in the harmless case. `Tidy.work` puts them together
for an event, `tidy_of_run` for a run, and `references_balanced_iff` is the result.
-/

set_option autoImplicit false

namespace Awds.Proofs

open Std Awds.Lib Awds.SendQueue Awds.AwdsRouting Awds.PacketWorld

/-! ### When a handler keeps the balance -/

/-- There is a route to a node. -/
def Reachable (host : Host) (clock : Clock) (r : AwdsRouting) (id : NodeId) : Prop :=
  ∃ t hop, r.topology.getNextHop host.toStation clock.lastEventTime id = .ok (t, hop, true)

/-- The handler `u` leaves each packet with the references it has a place for:

- `RTTMetric` is given no request, behind which it drops the wrong packet;
- `PktPair` is given no second packet of a node whose first packet it has seen, and a sink of
  `Traffic` no packet of a source that it reaches: behind these they keep the response. -/
def HarmlessAt (host : Host) (clock : Clock) (w : PacketWorld) (c : BasePacket) :
    UnicastHandler → Prop
  | .tap => True
  | .ping => True
  | .metric => match w.metric with
    | .rtt _ => UCMetricPacket.hasType c .req = false
    | .pktPair m => UCMetricPacket.hasType c .second = true → SrcPacket.getSrc c ∉ m.firstPackets
    | .tt _ => True
  | .traffic => w.traffic.type = .sink → TrafficPacket.hasType c .fromsrc = true →
    ¬Reachable host clock w.routing (SrcPacket.getSrc c)

/-- An event leaves each packet with the references it has a place for:

- a packet that `recv_packet` gives to a handler is harmless there;
- `checkLinkFailure` finds no neighbour that has been silent for long, which it would drop with
  its pointer;
- `topolock` has one of its commands, behind which it drops its packet;
- `PktPair` and `TTMetric` have no nodes that they would send packets to, which they keep;
- a sink of `Traffic` that has waited still does not reach its source. -/
def HarmlessEvent (host : Host) (w : PacketWorld) (e : PacketWorld.Event) : Prop :=
  match e.call with
  | .recvData (some c) => w.routing.recvPacket host c = some .unicast → ComesTo host c →
      UnicastPacket.getUcDest (passed host c) = host.myNodeId →
      ∀ u, w.unicastRegister (UnicastPacket.getUcPacketType (passed host c)) = some u →
        HarmlessAt host e.clock w (passed host c) u
  | .checkLinkFailure =>
    ∀ nd ∈ w.routing.neighbors, ¬Silent e.clock.lastEventTime nd
  | .topolock argv => topoLockCmd argv ≠ none
  | .metricWait => match w.metric with
    | .rtt _ => True
    | .pktPair m => m.nodes = ∅
    | .tt m => m.ttData = ∅
  | .trafficWait => w.traffic.type = .sink →
      ¬Reachable host e.clock w.routing w.traffic.dest
  | _ => True

section Metrics

variable {host : Host} {clock : Clock} {w w' : PacketWorld} {held : PacketPtr → Nat}
  {p response : PacketPtr} {c : BasePacket} {n : Nat}

/-- The creator of a metric packet has its first reference. -/
theorem Tidy.sendvia (host : Host) (h : Tidy w held) (hfree : w.q.refcount p = 0) (t : UCMetricType)
    (dest : NodeId) : Tidy (w.sendvia host p t dest) (held + Pi.single p 1) := by
  have hnew : Tidy ({ w with routing := (UCMetricPacket.new host w.routing t).1 }.newPacket p)
      (held + Pi.single p 1) := Tidy.newPacket (h.congr rfl rfl rfl rfl) hfree
  exact hnew.sendIf (hnew.refcount_pos (single_pos held p))
    (UCastMetric.sendvia host (UCMetricPacket.new host w.routing t).2 dest)

/-- A packet that is sent is the only one that is touched. -/
theorem sendIf_refcount {x : PacketPtr} (hp : 0 < w.q.refcount p) (hx : x ≠ p)
    (sent : Option BasePacket) : (w.sendIf p sent).q.refcount x = w.q.refcount x := by
  cases sent with
  | none => rfl
  | some c =>
    show (w.withQueue ((w.q.enqueuePacket p false).map Prod.fst)).q.refcount x = _
    cases hrun : w.q.enqueuePacket p false with
    | error e => rfl
    | ok out =>
      obtain ⟨q, accepted⟩ := out
      show q.refcount x = w.q.refcount x
      rcases enqueuePacket_cases hp hrun with ⟨-, rfl⟩ | ⟨-, front, back, -, rfl⟩
      · rfl
      · have hcount : (inserted w.q front p back).refcount
            = Function.update w.q.refcount p (w.q.refcount p + 1) := registerFirst_refcount
        rw [hcount, Function.update_of_ne hx]

/-- A probe touches no packet but its own. -/
theorem sendvia_refcount {x : PacketPtr} (hx : x ≠ p) (t : UCMetricType) (dest : NodeId) :
    (w.sendvia host p t dest).q.refcount x = w.q.refcount x := by
  have hself : 0 < (w.newPacket p).q.refcount p := by
    show 0 < Function.update w.q.refcount p 1 p
    rw [Function.update_self]
    exact Nat.one_pos
  refine (sendIf_refcount (w := { w with
    routing := (UCMetricPacket.new host w.routing t).1 }.newPacket p) hself hx
    (UCastMetric.sendvia host (UCMetricPacket.new host w.routing t).2 dest)).trans ?_
  exact Function.update_of_ne hx ..

/-- There is no oldest mark only if there is no mark. -/
theorem oldest_eq_none_iff {δ : Type} (lastsend : δ → AbsTime) (t : MarkTable NodeId δ) :
    oldest lastsend t = none ↔ t = ∅ := by
  unfold oldest
  cases hlist : t.toList with
  | nil =>
    simp only [true_iff]
    exact ExtTreeMap.toList_eq_nil_iff.mp hlist
  | cons e es =>
    simp only [reduceCtorEq, false_iff]
    intro hempty
    rw [ExtTreeMap.toList_eq_nil_iff.mpr hempty] at hlist
    cases hlist

/-- One more reference to a packet is a change. -/
theorem add_single_ne (held : PacketPtr → Nat) (p : PacketPtr) :
    held + Pi.single p 1 ≠ held := by
  intro heq
  have hp : held p + (Pi.single p 1 : PacketPtr → Nat) p = held p := congrFun heq p
  rw [Pi.single_eq_same] at hp
  omega

/-- References to different packets are different. -/
theorem single_ne {x : PacketPtr} (hne : x ≠ p) :
    (Pi.single x 1 : PacketPtr → Nat) ≠ Pi.single p 1 := by
  intro heq
  have hx := congrFun heq x
  rw [Pi.single_eq_same, Pi.single_eq_of_ne hne] at hx
  cases hx

/-- `on_recv` of a metric, with the references that are held behind it. -/
theorem Tidy.metricRecv (h : Tidy w (Pi.single p 1)) (hfree : w.q.refcount response = 0)
    (hne : response ≠ p) : ∃ held', Tidy (w.metricRecv host clock p response c) held' ∧
      (held' = Pi.single p 1 ↔ HarmlessAt host clock w c .metric) := by
  unfold PacketWorld.metricRecv HarmlessAt
  cases hmetric : w.metric with
  | rtt m =>
    dsimp only
    unfold PacketWorld.rttRecv
    cases hreq : UCMetricPacket.hasType c .req with
    | true =>
      rw [if_pos rfl]
      -- the reference of `recv_data` is dropped, that of the response is not
      have hsent := h.sendvia host hfree .resp (SrcPacket.getSrc c)
      rw [add_comm] at hsent
      exact ⟨_, hsent.unref, by simp [single_ne hne]⟩
    | false =>
      rw [if_neg Bool.false_ne_true]
      exact ⟨_, h.congr rfl rfl rfl rfl, by simp⟩
  | pktPair m =>
    dsimp only
    unfold PacketWorld.pktPairRecv
    split
    · rename_i hfirst
      refine ⟨_, h.congr rfl rfl rfl rfl, iff_of_true rfl fun hsecond => ?_⟩
      unfold UCMetricPacket.hasType at hfirst hsecond
      rw [decide_eq_true_iff] at hfirst hsecond
      rw [hfirst] at hsecond
      exact absurd hsecond (by decide)
    split
    · rename_i hsecond
      split
      · rename_i hnone
        refine ⟨_, h, iff_of_true rfl fun _ hmem => ?_⟩
        rw [ExtTreeMap.mem_iff_isSome_getElem?, hnone] at hmem
        cases hmem
      · rename_i time hsome
        refine ⟨_, h.sendvia host hfree .resp (SrcPacket.getSrc c),
          iff_of_false (add_single_ne _ _) fun hcalm => hcalm hsecond ?_⟩
        exact ExtTreeMap.mem_iff_isSome_getElem?.mpr (by rw [hsome]; rfl)
    · rename_i hsecond
      split
      · exact ⟨_, h.congr rfl rfl rfl rfl, iff_of_true rfl fun h2 => absurd h2 hsecond⟩
      · exact ⟨_, h, iff_of_true rfl fun h2 => absurd h2 hsecond⟩
  | tt m => exact ⟨_, h, by simp⟩

/-- `on_wait` of a metric. -/
theorem Tidy.metricWait {p2 : PacketPtr} (h : Tidy w held) (hfree : w.q.refcount p = 0)
    (hfree2 : w.q.refcount p2 = 0) (hne : p2 ≠ p) :
    ∃ held', Tidy (w.metricWait host clock p p2) held' ∧
      (held' = held ↔ match w.metric with
        | .rtt _ => True
        | .pktPair m => m.nodes = ∅
        | .tt m => m.ttData = ∅) := by
  unfold PacketWorld.metricWait
  cases hmetric : w.metric with
  -- The round trip metric gives its one packet back.
  | rtt m =>
    dsimp only
    split
    · exact ⟨_, h, by simp⟩
    · rename_i id hid
      have hsent := (h.sendvia host hfree .req id).unref
      exact ⟨_, hsent.congr rfl rfl rfl rfl, by simp⟩
  -- The pair metric keeps both packets unless it has nobody to ask.
  | pktPair m =>
    dsimp only
    split
    · rename_i hnone
      exact ⟨_, h, iff_of_true rfl ((oldest_eq_none_iff _ _).mp hnone)⟩
    · rename_i id hid
      have hfirst := h.sendvia host hfree .first id
      have hsecond := hfirst.sendvia (p := p2) host
        ((sendvia_refcount hne .first id).trans hfree2) .second id
      refine ⟨_, hsecond.congr rfl rfl rfl rfl, iff_of_false (fun heq => ?_) fun hempty => ?_⟩
      · -- One reference of `p2` is left over, so the two counts differ there.
        have hp := congrFun heq p2
        have hself : held p2 + (Pi.single p 1 : PacketPtr → Nat) p2
            + (Pi.single p2 1 : PacketPtr → Nat) p2 = held p2 := hp
        rw [Pi.single_eq_same] at hself
        omega
      · rw [(oldest_eq_none_iff _ _).mpr hempty] at hid
        cases hid
  -- The transmission time metric keeps its packet in the same way.
  | tt m =>
    dsimp only
    split
    · rename_i hnone
      exact ⟨_, h, iff_of_true rfl ((oldest_eq_none_iff _ _).mp hnone)⟩
    · rename_i id hid
      have hsent := h.sendvia host hfree .req id
      refine ⟨_, hsent.congr rfl rfl rfl rfl, iff_of_false (add_single_ne _ _) fun hempty => ?_⟩
      rw [(oldest_eq_none_iff _ _).mpr hempty] at hid
      cases hid

end Metrics

/-! ### Handlers and events -/

section Events

variable {host : Host} {clock : Clock} {w w' : PacketWorld} {held : PacketPtr → Nat}
  {p response : PacketPtr} {c : BasePacket} {n : Nat}

/-- What `isReachable` returns is whether there is a route. -/
theorem isReachable_iff {id : NodeId} {b : Bool}
    (hrun : w.isReachable host clock id = .ok (w', b)) :
    b = true ↔ Reachable host clock w.routing id := by
  obtain ⟨⟨t, hop, found⟩, hnext, hrun⟩ := bind_eq_ok.mp hrun
  cases hrun
  unfold Reachable
  rw [hnext]
  constructor
  · rintro rfl
    exact ⟨t, hop, rfl⟩
  · rintro ⟨t', hop', heq⟩
    cases heq
    rfl

/-- `Traffic::on_recv`, with the references that are held behind it. -/
theorem Tidy.trafficRecv (h : Tidy w held) (hfree : w.q.refcount response = 0)
    (hrun : w.trafficRecv host clock (handle host clock response n) response c = .ok w') :
    ∃ held', Tidy w' held' ∧ (held' = held ↔ HarmlessAt host clock w c .traffic) := by
  unfold PacketWorld.trafficRecv at hrun
  unfold HarmlessAt
  cases htype : w.traffic.type with
  | src =>
    rw [htype] at hrun
    dsimp only at hrun
    have hcalm : TrafficType.src = .sink → TrafficPacket.hasType c .fromsrc = true →
        ¬Reachable host clock w.routing (SrcPacket.getSrc c) := fun h => by cases h
    split at hrun
    · split at hrun
      · exact ⟨held, h.trafficSend hfree hrun, iff_of_true rfl hcalm⟩
      · cases hrun
    · cases hrun
      exact ⟨held, h, iff_of_true rfl hcalm⟩
  | sink =>
    rw [htype] at hrun
    dsimp only at hrun
    split at hrun
    · rename_i hfromsrc
      obtain ⟨⟨w1, reachable⟩, hreach, hrun⟩ := bind_eq_ok.mp hrun
      obtain ⟨hq, htraffic⟩ := isReachable_keeps hreach
      have h1 := h.isReachable hreach
      have hiff := isReachable_iff hreach
      dsimp only at hrun
      split at hrun
      · rename_i htrue
        -- the response keeps the reference of its creator
        have hsink : w1.traffic.type = .sink := by rw [htraffic, htype]
        refine ⟨_, h1.sendReply (by rw [hq]; exact hfree) hsink hrun,
          iff_of_false (add_single_ne _ _) fun hcalm => ?_⟩
        exact hcalm rfl hfromsrc (hiff.mp htrue)
      · rename_i hfalse
        cases hrun
        refine ⟨held, h1.congr rfl rfl rfl rfl, iff_of_true rfl fun _ _ hreachable => ?_⟩
        exact hfalse (hiff.mpr hreachable)
    · rename_i hother
      cases hrun
      exact ⟨held, h, iff_of_true rfl fun _ hfromsrc => absurd hfromsrc hother⟩

/-- The handler of a packet, with the references that are held behind it. -/
theorem Tidy.handle (h : Tidy w (Pi.single p 1)) (hfree : w.q.refcount response = 0)
    (hne : response ≠ p) (hintact : ReplyIntact host c)
    (hrun : PacketWorld.handle host clock response n w p c = .ok w') :
    ∃ held', Tidy w' held' ∧ (held' = Pi.single p 1 ↔
      ∀ u, w.unicastRegister (UnicastPacket.getUcPacketType c) = some u →
        HarmlessAt host clock w c u) := by
  cases n with
  | zero => cases hrun
  | succ n =>
    rw [PacketWorld.handle] at hrun
    cases hreg : w.unicastRegister (UnicastPacket.getUcPacketType c) with
    | none =>
      rw [hreg] at hrun
      cases hrun
      exact ⟨_, h, iff_of_true rfl fun u hu => by cases hu⟩
    | some u =>
      rw [hreg] at hrun
      -- there is one handler to speak about
      have hone : (∀ v, some u = some v → HarmlessAt host clock w c v) ↔
          HarmlessAt host clock w c u :=
        ⟨fun hall => hall u rfl, fun hu v hv => by cases hv; exact hu⟩
      rw [hone]
      cases u with
      | tap => exact ⟨_, h.tapRecvUnicast hrun, iff_of_true rfl trivial⟩
      | ping =>
        have hp : 0 < (Pi.single p 1 : PacketPtr → Nat) p := by
          rw [Pi.single_eq_same]
          exact Nat.one_pos
        exact ⟨_, h.pingRecv hp (unicastRegister_protocol hreg).symm hintact hrun,
          iff_of_true rfl trivial⟩
      | metric =>
        cases hrun
        exact h.metricRecv hfree hne
      | traffic => exact h.trafficRecv hfree hrun

/-- `recv_packet`, with the references that are held behind it. -/
theorem Tidy.recvPacket (h : Tidy w (Pi.single p 1)) (hfree : w.q.refcount response = 0)
    (hne : response ≠ p) (hrun : w.recvPacket host clock n p response c = .ok w') :
    ∃ held', Tidy w' held' ∧ (held' = Pi.single p 1 ↔
      (w.routing.recvPacket host c = some .unicast → ComesTo host c →
        UnicastPacket.getUcDest (passed host c) = host.myNodeId →
        ∀ u, w.unicastRegister (UnicastPacket.getUcPacketType (passed host c)) = some u →
          HarmlessAt host clock w (passed host c) u)) := by
  have hp : 0 < (Pi.single p 1 : PacketPtr → Nat) p := by
    rw [Pi.single_eq_same]
    exact Nat.one_pos
  unfold PacketWorld.recvPacket at hrun
  cases hkind : w.routing.recvPacket host c with
  | none =>
    rw [hkind] at hrun
    cases hrun
    exact ⟨_, h, iff_of_true rfl fun h => by cases h⟩
  | some kind =>
    rw [hkind] at hrun
    cases kind with
    | beacon => exact ⟨_, h.recvBeacon hp hrun, iff_of_true rfl fun h => by cases h⟩
    | flood =>
      obtain ⟨⟨r, sent⟩, hflood, hrun⟩ := bind_eq_ok.mp hrun
      cases hrun
      have hr := h.withRouting (congrArg List.length (recvFlood_sameNeighbors hflood).neighbors)
      exact ⟨_, hr.sendIf (hr.refcount_pos hp) sent, iff_of_true rfl fun h => by cases h⟩
    | unicast =>
      obtain ⟨⟨r, action⟩, hunicast, hrun⟩ := bind_eq_ok.mp hrun
      have hr := h.withRouting (congrArg List.length (recvUnicast_neighbors hunicast))
      -- a packet that comes to its destination is delivered
      have hnot : (∀ q, action ≠ .deliver q) → ComesTo host c →
          UnicastPacket.getUcDest (passed host c) ≠ host.myNodeId := by
        intro hother hcomes hdest
        rw [recvUnicast_delivers hcomes hdest] at hunicast
        cases hunicast
        exact hother _ rfl
      cases action with
      | drop =>
        cases hrun
        exact ⟨_, hr, iff_of_true rfl fun _ hcomes hdest =>
          absurd hdest (hnot (fun q hq => by cases hq) hcomes)⟩
      | send q =>
        cases hrun
        exact ⟨_, hr.send (hr.refcount_pos hp) false, iff_of_true rfl fun _ hcomes hdest =>
          absurd hdest (hnot (fun q hq => by cases hq) hcomes)⟩
      | deliver q =>
        obtain ⟨hcomes, hdest, rfl, rfl⟩ := recvUnicast_deliver_iff.mp hunicast
        obtain ⟨htype, hsrc⟩ := recvPacket_some hkind
        obtain ⟨held', htidy, hiff⟩ := hr.handle hfree hne (replyIntact_passed htype hsrc) hrun
        refine ⟨held', htidy, hiff.trans ⟨fun hall _ _ _ => hall, fun hall => ?_⟩⟩
        exact hall rfl hcomes hdest
    | forward =>
      obtain ⟨action, -, hrun⟩ := bind_eq_ok.mp hrun
      cases action with
      | deliver receiver q => cases receiver
      | noReceiver =>
        cases hrun
        exact ⟨_, h, iff_of_true rfl fun h => by cases h⟩
      | noRule =>
        cases hrun
        exact ⟨_, h, iff_of_true rfl fun h => by cases h⟩
      | send q =>
        cases hrun
        exact ⟨_, h.send (h.refcount_pos hp) true, iff_of_true rfl fun h => by cases h⟩

/-! #### Packets of the station itself -/

/-- The packet of the command is given back, unless the arguments are not understood: then it keeps
its reference. -/
theorem Tidy.topoCommandFn {argv : List String} (h : Tidy w held) (hfree : w.q.refcount p = 0)
    (hrun : w.topoCommandFn host clock p argv = .ok w') :
    ∃ held', Tidy w' held' ∧ (held' = held ↔ topoLockCmd argv ≠ none) := by
  unfold PacketWorld.topoCommandFn at hrun
  have hnew : Tidy ({ w with
      routing := (w.routing.newFloodPacket host packetTypeBcTopoLock).1 }.newPacket p)
      (held + Pi.single p 1) := Tidy.newPacket (h.congr rfl rfl rfl rfl) hfree
  cases hcmd : topoLockCmd argv with
  | none =>
    rw [hcmd] at hrun
    cases hrun
    exact ⟨_, hnew, iff_of_false (add_single_ne _ _) fun hne => hne rfl⟩
  | some cmd =>
    rw [hcmd] at hrun
    obtain ⟨⟨r, sent⟩, hsend, hrun⟩ := bind_eq_ok.mp hrun
    cases hrun
    have hr := hnew.withRouting (congrArg List.length (recvFlood_sameNeighbors hsend).neighbors)
    have hsent := hr.sendIf (hr.refcount_pos (single_pos held p)) sent
    exact ⟨held, hsent.unref, iff_of_true rfl (by simp)⟩

/-- The packet that is made of a frame is given back, whatever its way. -/
theorem Tidy.tapRecv {frame : List UInt8} (h : Tidy w held) (hfree : w.q.refcount p = 0)
    (hrun : w.tapRecv host clock n p response frame = .ok w') : Tidy w' held := by
  obtain ⟨⟨r, outcome⟩, htap, hrun⟩ := bind_eq_ok.mp hrun
  have hr := h.withRouting (congrArg List.length (tapRecv_neighbors htap))
  have hnew : Tidy ({ w with routing := r }.newPacket p) (held + Pi.single p 1) :=
    hr.newPacket hfree
  cases outcome with
  | inl sent =>
    cases hrun
    exact (hnew.sendIf (hnew.refcount_pos (single_pos held p)) sent).unref
  | inr action =>
    obtain ⟨w1, hsent, hrun⟩ := bind_eq_ok.mp hrun
    cases hrun
    refine Tidy.unref (hnew.finish (single_pos held p) (fun q hq hdeliver => ?_) hsent)
    subst hq
    -- a frame for the station itself
    unfold TapInterface.tapRecv at htap
    split at htap
    · obtain ⟨⟨r1, sent⟩, -, htap⟩ := bind_eq_ok.mp htap
      cases htap
    · obtain ⟨⟨r1, action⟩, hunicast, htap⟩ := bind_eq_ok.mp htap
      cases htap
      obtain ⟨⟨r2, frame⟩, hframe, hback⟩ := bind_eq_ok.mp hunicast
      obtain ⟨hplain, htype⟩ := unicastFrame_spec hframe
      have hagree := plain_returns hplain hback
      have hnr : q.buffer 22 = UInt8.ofNat TapInterface.protoNr :=
        (hagree.buffer 22 (by decide)).trans htype
      exact hnew.handle_quiet
        (quiet_of_type (u := .tap) (congrArg UInt8.toNat hnr) trivial) hdeliver

/-- The first byte and the type of the request of a ping. -/
theorem nextPing_spec (host : Host) (r : AwdsRouting) (pinger : Pinger) (stamp : List UInt8) :
    (pinger.nextPing host r stamp).2.buffer 22 = 42 ∧
      (pinger.doTracePath = false → PlainUnicast (pinger.nextPing host r stamp).2) := by
  have hnew := plainUnicast_newUnicastPacket host r Pinger.packetTypeUcPing
  have htype := newUnicastPacket_type host r Pinger.packetTypeUcPing
  unfold Pinger.nextPing
  generalize r.newUnicastPacket host Pinger.packetTypeUcPing = new at hnew htype
  obtain ⟨r', p⟩ := new
  dsimp only at hnew htype ⊢
  have hplain : PlainUnicast (p.setDest pinger.dest) := hnew
  rw [hplain.setType]
  -- The two writes lie behind the header, so its bytes stay.
  have hkept : ∀ i, i < 9 ∨ i = 22 →
      ((UnicastPacket.setTTL (UnicastPacket.setUcDest (p.setDest pinger.dest) pinger.dest)
        pinger.ttl).buffer.write Pinger.pingDirection [Pinger.request]).write
          Pinger.pingTimeStamp stamp i = p.buffer i := by
    intro i hi
    rw [Buffer.write_of_lt _ _ (by show i < 26; omega),
      Buffer.write_of_lt _ _ (by show i < 25; omega)]
    unfold UnicastPacket.setTTL UnicastPacket.setUcDest
    simp only [BasePacket.write_buffer]
    rw [Buffer.write_of_outside _ _ (by show i < 21 ∨ 21 + 1 ≤ i; omega),
      Buffer.write_of_outside _ _ (by rw [NodeId.length_toArray]; show i < 9 ∨ 9 + 6 ≤ i; omega)]
    rfl
  constructor
  · -- The type is written before the trace is, and the trace flag leaves it.
    split
    · rw [setTraceFlag_buffer _ _ (by decide), setTracePointer_buffer _ _ (by decide)]
      exact (hkept 22 (by decide)).trans htype
    · exact (hkept 22 (by decide)).trans htype
  · intro hnone
    rw [hnone, if_neg Bool.false_ne_true]
    exact (hkept 0 (by decide)).trans hnew

/-- A request to the station itself is a ping whose reply stays one. -/
theorem nextPing_returns {r r' r'' : AwdsRouting} {pinger : Pinger} {stamp : List UInt8}
    {q : BasePacket} (h : r'.sendUnicast host clock (pinger.nextPing host r stamp).2
      = .ok (r'', .deliver q)) :
    UnicastPacket.getUcPacketType q = Pinger.packetTypeUcPing ∧ ReplyIntact host q := by
  obtain ⟨hnr, hplain⟩ := nextPing_spec host r pinger stamp
  cases htrace : pinger.doTracePath with
  -- Without a trace the way cannot change the packet.
  | false =>
    have hagree := plain_returns (hplain htrace) h
    have hback := hagree.plainUnicast (hplain htrace)
    have hflag : SrcPacket.getTraceFlag q = false := by
      show decide (_ ≠ _) = false
      rw [hback]
      rfl
    refine ⟨congrArg UInt8.toNat ((hagree.buffer 22 (by decide)).trans hnr), fun hq => ?_⟩
    rw [hflag] at hq
    cases hq
  -- With one, the trace area begins behind the ping's own fields.
  | true =>
    have htraced := (traced_nextPing host r stamp htrace).1
    have hptr := htraced.pointer
    have hback := (htraced.sendUnicast (.inl (by decide)) h (.inr rfl)).traced.pointer
    obtain ⟨-, -, rfl, -⟩ := recvUnicast_deliver_iff.mp h
    refine ⟨congrArg UInt8.toNat (Eq.trans ?_ hnr), fun _ => .inr (.inl ?_)⟩
    · refine returned_buffer host _ (by decide) (by decide) fun _ => ⟨.inl ?_, .inl (by decide)⟩
      rw [hptr]
      -- The type lies in front of it.
      show 22 < 34 + _
      omega
    · -- So do the direction and the time stamp.
      show 26 ≤ TraceUcPacket.getTracePointer (passed host (sentBy host _))
      rw [show TraceUcPacket.getTracePointer (passed host (sentBy host _)) = _ from hback]
      show 26 ≤ 34 + _
      omega

/-- A packet of the `Pinger` goes to its handler, which keeps the references. -/
theorem Tidy.handle_ping (h : Tidy w held) (hp : 0 < held p)
    (htype : UnicastPacket.getUcPacketType c = Pinger.packetTypeUcPing)
    (hintact : ReplyIntact host c)
    (hrun : PacketWorld.handle host clock response n w p c = .ok w') : Tidy w' held := by
  cases n with
  | zero => cases hrun
  | succ n =>
    rw [PacketWorld.handle] at hrun
    cases hreg : w.unicastRegister (UnicastPacket.getUcPacketType c) with
    | none =>
      rw [hreg] at hrun
      cases hrun
      exact h
    | some u =>
      rw [hreg, unicastRegister_eq (u := .ping) hreg htype] at hrun
      exact h.pingRecv hp htype hintact hrun

/-- The next ping is a new packet, which is given back when it was sent. -/
theorem Tidy.nextPing {pinger : Pinger} {stamp : List UInt8} (h : Tidy w held)
    (hfree : w.q.refcount p = 0)
    (hrun : w.nextPing host clock n p response pinger stamp = .ok w') : Tidy w' held := by
  unfold PacketWorld.nextPing at hrun
  obtain ⟨w1, hsent, hrun⟩ := bind_eq_ok.mp hrun
  cases hrun
  have hneigh : (Pinger.nextPing host w.routing pinger stamp).1.neighbors
      = w.routing.neighbors := by
    unfold Pinger.nextPing
    dsimp only
    split <;> rfl
  have hnew : Tidy ({ w with
      routing := (Pinger.nextPing host w.routing pinger stamp).1 }.newPacket p)
      (held + Pi.single p 1) :=
    Tidy.newPacket (h.withRouting (congrArg List.length hneigh)) hfree
  obtain ⟨⟨r, action⟩, hsend, hfinish⟩ := bind_eq_ok.mp hsent
  have hr := hnew.withRouting (congrArg List.length (sendUnicast_neighbors hsend))
  refine Tidy.unref (hr.finish (single_pos held p) (fun q hq hdeliver => ?_) hfinish)
  subst hq
  obtain ⟨htype, hintact⟩ := nextPing_returns hsend
  exact hr.handle_ping (single_pos held p) htype hintact hdeliver

/-- A beacon is given back behind `send`. -/
theorem Tidy.sendBeacon (h : Tidy w held) (hfree : w.q.refcount p = 0) :
    Tidy (w.sendBeacon p) held := by
  have hnew := h.newPacket hfree
  exact (hnew.send (hnew.refcount_pos (single_pos held p)) true).unref

/-- `Traffic::on_wait`, with the references that are held behind it. -/
theorem Tidy.trafficWait (h : Tidy w held) (hfree : w.q.refcount p = 0)
    (hrun : w.trafficWait host clock n p response = .ok w') :
    ∃ held', Tidy w' held' ∧ (held' = held ↔
      (w.traffic.type = .sink → ¬Reachable host clock w.routing w.traffic.dest)) := by
  unfold PacketWorld.trafficWait at hrun
  cases htype : w.traffic.type with
  -- A source drops every packet that it sends.
  | src =>
    rw [htype] at hrun
    dsimp only at hrun
    have hcalm : TrafficType.src = .sink → ¬Reachable host clock w.routing w.traffic.dest :=
      fun h => by cases h
    split at hrun
    · exact ⟨held, h.trafficSend hfree hrun, iff_of_true rfl hcalm⟩
    · cases hrun
      exact ⟨held, h, iff_of_true rfl hcalm⟩
  -- A sink holds its reply if the destination can be reached.
  | sink =>
    rw [htype] at hrun
    obtain ⟨⟨w1, reachable⟩, hreach, hrun⟩ := bind_eq_ok.mp hrun
    obtain ⟨hq, htraffic⟩ := isReachable_keeps hreach
    have h1 := h.isReachable hreach
    have hiff := isReachable_iff hreach
    dsimp only at hrun
    split at hrun
    · rename_i htrue
      have hsink : w1.traffic.type = .sink := by rw [htraffic, htype]
      exact ⟨_, h1.sendReply (by rw [hq]; exact hfree) hsink hrun,
        iff_of_false (add_single_ne _ _) fun hcalm => hcalm rfl (hiff.mp htrue)⟩
    · rename_i hfalse
      cases hrun
      exact ⟨held, h1, iff_of_true rfl fun _ hreachable => hfalse (hiff.mpr hreachable)⟩

/-! #### Steps and runs -/

/-- The work of an event, with the references that are held behind it. -/
theorem Tidy.work {e : PacketWorld.Event} (h : Tidy w 0) (hpossible : e.Possible w)
    (hrun : w.work host n e = .ok w') :
    ∃ held', Tidy w' held' ∧ (held' = e.held ↔ HarmlessEvent host w e) := by
  obtain ⟨⟨hfirst, hsecond, hne⟩, hcall⟩ := hpossible
  obtain ⟨clock, first, second, call⟩ := e
  dsimp only at hfirst hsecond hne hcall
  -- The event's first packet is new and has one reference.
  have hnew : Tidy (w.newPacket first) (Pi.single first 1) := by
    have hcreated := h.newPacket hfirst
    rwa [zero_add] at hcreated
  unfold PacketWorld.work at hrun
  unfold HarmlessEvent PacketWorld.Event.held
  -- One case for each call of the event loop.
  cases call with
  | recvData c =>
    cases c with
    | none =>
      cases hrun
      exact ⟨_, hnew, iff_of_true rfl trivial⟩
    | some c =>
      -- The second packet is another one and free as well.
      have hfree : (w.newPacket first).q.refcount second = 0 := by
        show Function.update w.q.refcount first 1 second = 0
        rw [Function.update_of_ne hne.symm, hsecond]
      exact hnew.recvPacket hfree hne.symm hrun
  | transmit ready =>
    cases hrun
    exact ⟨0, h.transmit hcall ready, iff_of_true rfl trivial⟩
  | sendBeacon =>
    cases hrun
    exact ⟨0, h.sendBeacon hfirst, iff_of_true rfl trivial⟩
  | sendTopo => exact ⟨0, h.sendTopo hfirst hrun, iff_of_true rfl trivial⟩
  | checkLinkFailure =>
    obtain ⟨lost, htidy, hiff⟩ := h.checkLinkFailure hfirst hrun
    -- The lost packets are counted: none is lost if and only if the count is zero.
    refine ⟨_, htidy, Iff.trans ⟨fun hzero => ?_, fun hnone => ?_⟩ hiff⟩
    · refine List.eq_nil_iff_forall_not_mem.mpr fun x hx => ?_
      have hcount : 0 + lost.count x = 0 := congrFun hzero x
      have hpos := List.count_pos_iff.mpr hx
      omega
    · rw [hnone]
      rfl
  | tapRecv frame => exact ⟨0, h.tapRecv hfirst hrun, iff_of_true rfl trivial⟩
  | nextPing pinger stamp => exact ⟨0, h.nextPing hfirst hrun, iff_of_true rfl trivial⟩
  | topolock argv => exact h.topoCommandFn hfirst hrun
  | metricWait =>
    cases hrun
    exact h.metricWait hfirst hsecond hne.symm
  | trafficSend pCount pSize d => exact ⟨0, h.trafficSend hfirst hrun, iff_of_true rfl trivial⟩
  | trafficWait => exact h.trafficWait hfirst hrun
  | elsewhere routing flows loaded metric traffic =>
    cases hrun
    exact ⟨0, h.congr rfl rfl rfl hcall, iff_of_true rfl trivial⟩

/-- `recv_data` drops the reference it has. -/
theorem Tidy.release {e : PacketWorld.Event} (h : Tidy w e.held) : Tidy (e.release w) 0 := by
  obtain ⟨clock, first, second, call⟩ := e
  unfold PacketWorld.Event.release
  unfold PacketWorld.Event.held at h
  cases call with
  | recvData c =>
    refine Tidy.unref ?_
    rw [zero_add]
    exact h
  | _ => exact h

/-- After a run of harmless events nobody but the queue and the table has a packet. -/
theorem tidy_of_run (h : Run host n (HarmlessEvent host) w) : Tidy w 0 := by
  induction h with
  | start r loaded metric traffic empty =>
    exact
      { sound := rfl
        counted := fun _ => rfl
        registered := rfl
        aligned := by rw [empty]; rfl }
  | step w w' e _ possible ok work ih =>
    obtain ⟨held', htidy, hiff⟩ := ih.work possible work
    rw [hiff.mpr ok] at htidy
    exact htidy.release

/-- In every run of harmless events the counter of a packet is the number of its places in the
send queue and in the table of neighbours, and no packet is used behind its last reference. The
next event keeps it so exactly if it is harmless too: when `recv_packet` returns, the packet
that was received has one reference more, which `recv_data` drops then, and any other packet has
its places only. -/
theorem references_balanced_iff (host : Host) (n : Nat) (w : PacketWorld)
    (run : Run host n (HarmlessEvent host) w) :
    Balanced w 0 ∧ ∀ e w', e.Possible w → w.work host n e = .ok w' →
      (Balanced w' e.held ↔ HarmlessEvent host w e) ∧
        (HarmlessEvent host w e → Balanced (e.release w') 0) := by
  have htidy := tidy_of_run run
  refine ⟨htidy.balanced, fun e w' possible work => ?_⟩
  obtain ⟨held', hheld, hiff⟩ := htidy.work possible work
  refine ⟨hheld.balanced_iff.trans (eq_comm.trans hiff), fun harmless => ?_⟩
  rw [hiff.mpr harmless] at hheld
  exact hheld.release.balanced

/-- The callback of the queue sends a beacon, and its packet is gone. -/
theorem references_balanced_beacon : ∃ w w' : PacketWorld,
    Run (pairHosts false) 1 (HarmlessEvent (pairHosts false)) w ∧
    w.q.queue = [1] ∧ w.q.refcount 1 = 1 ∧ Balanced w 0 ∧
    w.work (pairHosts false) 1 ⟨⟨0, 0⟩, 2, 3, .transmit true⟩ = .ok w' ∧
    w'.q.refcount 1 = 0 ∧ Balanced w' 0 := by
  have hstart : Run (pairHosts false) 1 (HarmlessEvent (pairHosts false)) _ :=
    .start (pairRouting false) (fun _ => true) (.rtt {}) ⟨.sink, 0, 0, 0, 0, 0⟩ rfl
  have hrun := hstart.step _ _ ⟨⟨0, 0⟩, 1, 2, .sendBeacon⟩ ⟨⟨rfl, rfl, by decide⟩, trivial⟩
    trivial rfl
  obtain ⟨hbalanced, hnext⟩ := references_balanced_iff _ _ _ hrun
  have hsent := hnext ⟨⟨0, 0⟩, 2, 3, .transmit true⟩ _ ⟨⟨rfl, rfl, by decide⟩, Nat.one_pos⟩ rfl
  exact ⟨_, _, hrun, rfl, rfl, hbalanced, rfl, rfl, hsent.2 trivial⟩

/-- A station that has just been started and measures with `RTTMetric`. -/
def measuringWorld : PacketWorld where
  routing := pairRouting false
  loaded := fun _ => true
  metric := .rtt {}
  traffic := { type := .sink }

/-- The request of the station 2 that it gets. -/
def requestPacket : BasePacket :=
  let p := (UCMetricPacket.new (pairHosts true) (pairRouting true) .req).2
  UnicastPacket.setNextHop (UnicastPacket.setUcDest p 1) 1

/-- The packet of the request is gone when `recv_packet` returns, and `recv_data` drops a
reference that it does not have. The response is in the queue and has a reference too many. -/
theorem request_loses_packet : ∃ w w' : PacketWorld,
    Run (pairHosts false) 1 (fun _ _ => True) w ∧
    (⟨⟨0, 0⟩, 1, 2, .recvData (some requestPacket)⟩ : PacketWorld.Event).Possible w ∧
    w.work (pairHosts false) 1 ⟨⟨0, 0⟩, 1, 2, .recvData (some requestPacket)⟩ = .ok w' ∧
    w'.q.refcount 1 = 0 ∧ (w'.unref 1).misused = true ∧
    w'.q.queue = [2] ∧ w'.q.refcount 2 = 2 ∧ ¬Balanced w' (Pi.single 1 1) := by
  obtain ⟨w', hwork, hvalues⟩ := exists_of_test
    (measuringWorld.work (pairHosts false) 1 ⟨⟨0, 0⟩, 1, 2, .recvData (some requestPacket)⟩)
    (fun w' => decide (w'.q.refcount 1 = 0 ∧ (w'.unref 1).misused = true ∧
      w'.q.queue = [2] ∧ w'.q.refcount 2 = 2)) (by decide +kernel)
  obtain ⟨hreceived, hmisused, hqueue, hresponse⟩ := of_decide_eq_true hvalues
  refine ⟨measuringWorld, w', .start _ _ _ _ rfl, ⟨⟨rfl, rfl, by decide⟩, trivial⟩, hwork,
    hreceived, hmisused, hqueue, hresponse, fun hbalanced => ?_⟩
  have hcount := hbalanced.counted 1
  rw [hreceived, Pi.single_eq_same] at hcount
  omega

end Events

end Awds.Proofs
