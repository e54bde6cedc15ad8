import Awds.Proofs.Routing.TopoPacket
import Awds.Proofs.Topology.OwnNode

/-!
# `Awds.Proofs.Routing.TopoSchedule`: the own topo packets

A station feeds itself the topo packets that it sends, so its own node is renewed in every
period for three periods. A locked topology ignores the packets, and nothing expires in it. The
two do not fit together: behind a lock the own node may have expired, and the first cleanup in
front of the next own packet removes it.

`TopoRun` is a station with the time at which `send_periodic_topo` is due. `own_node_kept` says
that the own node is there in all runs in which it survives each cleanup that comes between a
packet that was ignored and the next one that is accepted. Then `calcRoutes` finds the own node
and `send_topo` does not divide by zero. `own_node_lost` is a run in which it does not survive.
-/

set_option autoImplicit false

namespace Awds.Proofs

open Std (ExtTreeMap)
open Awds.Lib Awds.AwdsRouting Awds.RTopology

/-! ### The period -/

/-- A root that has a bit stays positive: each turn halves it once. -/
theorem isqrtLoop_of_le (n : Nat) : ∀ remainder root, 2 ^ n ≤ root →
    0 < isqrtLoop n remainder root := by
  induction n with
  | zero => exact fun _ _ h => h
  | succ n ih =>
    intro remainder root h
    have hhalf : 2 ^ n ≤ root >>> 1 := by
      rw [Nat.shiftRight_eq_div_pow, pow_one]
      exact (Nat.le_div_iff_mul_le Nat.two_pos).mpr (by rw [← pow_succ]; exact h)
    rw [isqrtLoop]
    split
    · exact ih _ _ (hhalf.trans Nat.left_le_or)
    · exact ih _ _ hhalf

/-- The loop finds the first bit of a root that is not 0. -/
theorem isqrtLoop_pos (n : Nat) : ∀ remainder, 0 < n → 0 < remainder →
    0 < isqrtLoop n remainder 0 := by
  induction n with
  | zero => exact fun _ h => absurd h (Nat.lt_irrefl 0)
  | succ n ih =>
    intro remainder _ hpos
    rw [isqrtLoop]
    split
    · refine isqrtLoop_of_le n _ _ (le_trans ?_ Nat.right_le_or)
      exact Nat.pow_le_pow_left (by decide) n
    · rename_i hsmall
      rw [Nat.or_zero] at hsmall
      have hn : 0 < n := by
        -- the last squared bit is 1, and the remainder is not below it
        refine Nat.pos_of_ne_zero fun h0 => hsmall ?_
        rw [h0]
        exact hpos
      exact ih remainder hn hpos

/-- The root of a positive number is positive: the loop keeps at least one. -/
theorem isqrt_pos {x : Nat} (h : 0 < x) : 0 < isqrt x := by
  rw [isqrt, if_neg (by omega)]
  exact isqrtLoop_pos 32 x (by decide) h

/-- A station with a node has a period. -/
theorem nextTopoPeriod_ok {r : AwdsRouting} {u : NodeId} (h : u ∈ r.topology.adjList) :
    ∃ period, r.nextTopoPeriod = .ok period := by
  have hsize : 0 < r.topology.adjList.size := by
    rw [← ExtTreeMap.length_keys]
    exact List.length_pos_of_mem (ExtTreeMap.mem_keys.mpr h)
  unfold nextTopoPeriod
  split
  · exact ⟨_, rfl⟩
  · unfold adaptivePeriod
    rw [if_neg (isqrt_pos (by omega)).ne']
    exact ⟨_, rfl⟩

/-! ### The own packet -/

/-- A topo packet of the station itself, valid for three periods. -/
structure OwnTopo (host : Host) (q : BasePacket) (period : Int) : Prop where
  src : SrcPacket.getSrc q = host.myNodeId
  validity : TopoPacket.getValidity q = Duration.ofMillis (3 * period)
  size : TopoPacket.offsetLinks + 1 ≤ q.size

section
variable {host : Host} {clock : Clock} {r r' : AwdsRouting} {p p' q : BasePacket}

/-- `send_topo` makes a topo packet and leaves the topology alone. -/
theorem makeTopo_spec (h : r.makeTopo host = .ok (r', p)) :
    p.getType = .flood ∧ Flood.getFloodType p = Flood.floodTypeTopo ∧
      r'.topology = r.topology := by
  obtain ⟨⟨r1, p1⟩, hunsigned, h⟩ := bind_eq_ok.mp h
  obtain ⟨htype, htopo, hsize, -⟩ := unsignedTopo_spec hunsigned
  have hkeep : r1.topology = r.topology := by
    obtain ⟨p0, -, hunsigned⟩ := bind_eq_ok.mp hunsigned
    obtain ⟨period, -, hunsigned⟩ := bind_eq_ok.mp hunsigned
    cases hunsigned
    rfl
  simp only [Except.ok.injEq, signTopo] at h
  cases hcu : r1.cryptoUnit with
  | none =>
    rw [hcu] at h
    cases h
    exact ⟨htype, htopo, hkeep⟩
  | some cu =>
    rw [hcu] at h
    injection h with hr hp
    -- the signature is behind the header
    have hheader : ∀ i < 17, p.buffer i = p1.buffer i := by
      intro i hi
      rw [← hp]
      exact sign_of_lt pairwise_noSign (by omega)
    refine ⟨?_, ?_, ?_⟩
    · rw [← htype, BasePacket.getType, BasePacket.getType, hheader 0 (by decide)]
    · rw [← htopo, Flood.getFloodType, Flood.getFloodType,
        hheader Flood.offsetFloodType (by decide)]
    · rw [← hr]
      exact hkeep

/-- The check of a signature changes the crypto unit at most. -/
theorem checkSignature_topology {valid : Bool}
    (h : r.checkSignature host p = .ok (r', p', valid)) :
    r'.topology = r.topology ∧ r'.topoPeriodMs = r.topoPeriodMs := by
  unfold checkSignature at h
  split at h
  · cases h
    exact ⟨rfl, rfl⟩
  · obtain ⟨len, -, h⟩ := bind_eq_ok.mp h
    cases h
    exact ⟨rfl, rfl⟩

/-- A topo packet that goes on was fed to the topology. -/
theorem handleTopo_feeds (h : r.handleTopo host clock p = .ok (r', p', true)) :
    r.topology.feed host.toStation clock.lastEventTime p = .ok r'.topology ∧
      r'.topoPeriodMs = r.topoPeriodMs := by
  obtain ⟨⟨r1, p1, valid⟩, hsig, h⟩ := bind_eq_ok.mp h
  obtain ⟨htopology, hperiod⟩ := checkSignature_topology hsig
  simp only at h
  split at h
  · cases h
  · rename_i hvalid
    obtain ⟨t, ht, h⟩ := bind_eq_ok.mp h
    have hsame : p1 = p := (checkSignature_keeps hsig).1 (by simpa using hvalid)
    cases h
    rw [← htopology, ← hsame]
    exact ⟨ht, hperiod⟩

/-- A topo packet that the station sends was fed to its own topology, with a validity of three
periods. -/
theorem sendTopo_feeds {out : BasePacket} (hname : r.nodeName.length ≤ 32)
    (hlen : r.neighbors.length ≤ 255)
    (hperiod : 1 ≤ r'.topoPeriodMs ∧ r'.topoPeriodMs ≤ (2 ^ 31 - 1) / 3)
    (h : r.sendTopo host clock = .ok (r', some out)) :
    ∃ q, OwnTopo host q r'.topoPeriodMs ∧
      r.topology.feed host.toStation clock.lastEventTime q = .ok r'.topology := by
  -- The packet is made, and then it is handled like one that was received.
  obtain ⟨⟨r1, p⟩, hmake, h⟩ := bind_eq_ok.mp h
  obtain ⟨htype, htopo, hkeep⟩ := makeTopo_spec hmake
  have henc := makeTopo_encodes hname hlen hmake
  have h : r1.recvFlood host clock (Flood.incTTL (p.setType .flood)) = .ok (r', some out) := h
  rw [setType_flood htype] at h
  -- Only the hop count differs, which lies between the source and the type.
  have hinc : AgreeOutside 9 16 p (Flood.incTTL p) := .write p (by decide) (Nat.le_refl 16)
  obtain ⟨-, p', hhandle, -⟩ := recvFlood_sent h
  rw [setType_flood ((hinc.getType (by decide)).trans htype)] at hhandle
  have htopo' : Flood.getFloodType (Flood.incTTL p) = Flood.floodTypeTopo := by
    rw [Flood.getFloodType, hinc.buffer _ (.inr (by decide))]
    exact htopo
  unfold handleFlood at hhandle
  rw [if_pos htopo'] at hhandle
  -- The flood was sent on, so its signature was accepted and the packet was fed.
  obtain ⟨hfeed, hsame⟩ := handleTopo_feeds hhandle
  -- Admitting the flood leaves the topology and the period.
  have hstate : (r1.admitFlood (Flood.incTTL p)).1.topology = r1.topology ∧
      (r1.admitFlood (Flood.incTTL p)).1.topoPeriodMs = r1.topoPeriodMs := by
    unfold admitFlood
    dsimp only
    split
    · exact ⟨rfl, rfl⟩
    · exact ⟨rfl, rfl⟩
  rw [hstate.1, hkeep] at hfeed
  rw [hstate.2] at hsame
  refine ⟨Flood.incTTL p, ⟨?_, ?_, ?_⟩, hfeed⟩
  · -- The source is in front of the hop count.
    rw [← henc.getSrc_eq, SrcPacket.getSrc, SrcPacket.getSrc]
    refine congrArg NodeId.fromArray (Buffer.read_congr fun i _ hi => hinc.buffer i (.inl ?_))
    exact Nat.lt_of_lt_of_le hi (by decide)
  · -- The validity is behind it, and it was made from the period.
    rw [hsame] at hperiod ⊢
    obtain ⟨hv, -, hlt⟩ := validity_of_period hperiod
    rw [← hv, ← henc.getValidity_eq hlt, TopoPacket.getValidity, TopoPacket.getValidity]
    refine congrArg (fun bs => Duration.ofMillis (ofBigEndian bs : Nat))
      (Buffer.read_congr fun i hi _ => hinc.buffer i (.inr ?_))
    exact Nat.le_trans (by decide) hi
  · exact henc.sizeOk.1

end

/-! ### Runs -/

/-- A station and the time at which `send_periodic_topo` is due. `missed` says that the topology
was locked when the last own packet came. -/
structure TopoRun where
  routing : AwdsRouting
  time : AbsTime
  next : AbsTime
  missed : Bool := false

/-- The constructors at the time `t`: the first own packet is due a second later. -/
def TopoRun.start (host : Host) (r : AwdsRouting) (t : AbsTime) : TopoRun where
  routing := { r with topology := init host.toStation t }
  time := t
  next := t + Duration.ofMillis 1000

/-- A step: `send_periodic_topo` on time, whose packet is fed to the own topology, or another call
to the topology in front of it. The rest of the station may change in any way. -/
inductive TopoRun.Step (host : Host) (ok : TopoRun → Event → Prop) : TopoRun → TopoRun → Prop
  | periodic {s : TopoRun} {clock : Clock} {r' : AwdsRouting} {sent : Option BasePacket}
      {q : BasePacket} (htime : s.time ≤ s.next) (hclock : clock.lastEventTime = s.next)
      (hrun : s.routing.sendTopo host clock = .ok (r', sent))
      (hown : OwnTopo host q r'.topoPeriodMs)
      (hfed : s.routing.topology.feed host.toStation s.next q = .ok r'.topology) :
      Step host ok s
        { routing := r'
          time := s.next
          next := s.next + Duration.ofMillis r'.topoPeriodMs
          missed := s.routing.topology.locked }
  | event {s : TopoRun} {e : Event} {r' : AwdsRouting} (htime : s.time ≤ e.now)
      (hnext : e.now ≤ s.next) (hok : ok s e)
      (hrun : s.routing.topology.exec host.toStation e = .ok r'.topology) :
      Step host ok s { s with routing := r', time := e.now }

/-- A run of any number of steps. -/
abbrev TopoRun.Runs (host : Host) (ok : TopoRun → Event → Prop) : TopoRun → TopoRun → Prop :=
  Relation.ReflTransGen (TopoRun.Step host ok)

/-- The condition on a call while the last own packet was ignored: the own node survives the
cleanup, if there is one. -/
def SurvivesLock (host : Host) (s : TopoRun) (e : Event) : Prop :=
  s.missed = true → cleans s.routing.topology e = true →
    OwnSurvives host.toStation s.routing.topology e

section
variable {host : Host} {s s' : TopoRun}

/-- The own node is there, and while no own packet was ignored it lives beyond the next one. -/
structure OwnKept (host : Host) (s : TopoRun) : Prop where
  mem : host.myNodeId ∈ s.routing.topology.adjList
  lives : s.missed = false → LivesUntil s.routing.topology.adjList host.myNodeId (s.next + 1)

/-- At the start the own node lives for five seconds, and the next own packet is due after one. -/
theorem ownKept_start (host : Host) (r : AwdsRouting) (t : AbsTime) :
    OwnKept host (TopoRun.start host r t) := by
  have hlives : LivesUntil (init host.toStation t).adjList host.myNodeId
      (t + Duration.ofMillis 1000 + 1) := by
    refine ⟨_, by rw [init, getElem?_insertAt, if_pos rfl], ?_⟩
    show t + 1000 * 1000000 + 1 ≤ t + 5000 * 1000000
    rw [Int.add_assoc]
    exact Int.add_le_add_left (by decide) t
  exact ⟨hlives.mem, fun _ => hlives⟩

/-- While no own packet was ignored, the own node survives every cleanup in front of the next
one. -/
theorem OwnKept.survives (h : OwnKept host s) {e : Event} (hnext : e.now ≤ s.next)
    (hok : SurvivesLock host s e) (hcleans : cleans s.routing.topology e = true) :
    OwnSurvives host.toStation s.routing.topology e := by
  cases hmissed : s.missed with
  | true => exact hok hmissed hcleans
  | false =>
    obtain ⟨nd, hnd, hle⟩ := h.lives hmissed
    exact .inl ⟨nd, hnd, Int.lt_of_lt_of_le (Int.lt_add_one_of_le hnext) hle⟩

/-- Three periods are longer than one. -/
theorem period_lt_validity {next period : Int} (h : 0 < 3 * period * 1000000) :
    next + period * 1000000 + 1 ≤ next + 3 * period * 1000000 := by
  omega

/-- A step keeps the own node. An own packet renews it for three periods, or is ignored while the
topology is locked. -/
theorem OwnKept.step (h : OwnKept host s) (hstep : TopoRun.Step host (SurvivesLock host) s s') :
    OwnKept host s' := by
  cases hstep with
  | @periodic clock r' sent q _ _ _ hown hfed =>
    cases hlocked : s.routing.topology.locked with
    | true =>
      -- the packet is ignored
      have hsame : r'.topology = s.routing.topology := by
        rw [RTopology.feed, if_pos hlocked] at hfed
        exact (Except.ok.inj hfed).symm
      refine ⟨?_, fun hc => by cases hc⟩
      show host.myNodeId ∈ r'.topology.adjList
      rw [hsame]
      exact h.mem
    | false =>
      obtain ⟨hval, hlives⟩ := feed_renews hlocked hown.size (.inl hown.src.symm) hfed
      rw [hown.validity] at hval hlives
      exact ⟨hlives.mem, fun _ => hlives.mono (period_lt_validity hval)⟩
  | @event e r' _ hnext hok hrun =>
    refine ⟨own_mem_exec h.mem (h.survives hnext hok) hrun, fun hmissed => ?_⟩
    exact (h.lives hmissed).exec (fun _ => Int.lt_add_one_of_le hnext) hrun

/-- Along every run the own node is kept. -/
theorem OwnKept.runs (h : OwnKept host s)
    (hrun : TopoRun.Runs host (SurvivesLock host) s s') : OwnKept host s' := by
  induction hrun with
  | refl => exact h
  | tail _ hstep ih => exact ih.step hstep

/-- Take a run in which the own packets come on time and each cleanup behind one that was ignored
finds the own node alive. The own node is there in every state. So the assertion of `calcRoutes`
holds in each call that may follow, also in the one of the next own packet, and `send_topo` does
not divide by zero. -/
theorem own_node_kept {r : AwdsRouting} {t : AbsTime}
    (hrun : TopoRun.Runs host (SurvivesLock host) (TopoRun.start host r t) s) :
    host.myNodeId ∈ s.routing.topology.adjList ∧
      (∀ e, s.time ≤ e.now → e.now ≤ s.next → SurvivesLock host s e →
        RoutesAssert host.toStation s.routing.topology e) ∧
      (∀ q period, OwnTopo host q period →
        RoutesAssert host.toStation s.routing.topology ⟨s.next, .feed q⟩) ∧
      ∃ period, s.routing.nextTopoPeriod = .ok period := by
  have h := (ownKept_start host r t).runs hrun
  refine ⟨h.mem, fun e _ hnext hok => ?_, fun q period hown => ?_, nextTopoPeriod_ok h.mem⟩
  · exact routes_assert h.mem (h.survives hnext hok)
  · exact routes_assert h.mem fun _ => .inr ⟨q, rfl, .inl hown.src.symm⟩

end

/-! ### A lock that is too long -/

/-- The topology of station 1, which was started at 0, with the lock set or not. -/
def startTopology (locked : Bool) : RTopology :=
  { init (pairHosts false).toStation 0 with locked := locked }

/-- Station 1 behind a lock at 0 and the command `topoperiod constant 6000`. -/
def lockedStation : AwdsRouting :=
  { pairRouting false with
    topology := startTopology true
    topoPeriodType := .constant
    topoPeriodMs := 6000 }

/-- The station ignores its own packet at 1 s. The next one is due at 7 s. -/
theorem runs_locked (ok : TopoRun → Event → Prop)
    (hok : ok (TopoRun.start (pairHosts false) (pairRouting false) 0) ⟨0, .setLocked true⟩) :
    ∃ r, TopoRun.Runs (pairHosts false) ok
        (TopoRun.start (pairHosts false) (pairRouting false) 0) ⟨r, 1000000000, 7000000000, true⟩ ∧
      r.topology = startTopology true := by
  have hlock : TopoRun.Step (pairHosts false) ok
      (TopoRun.start (pairHosts false) (pairRouting false) 0)
      ⟨lockedStation, 0, 1000000000, false⟩ :=
    .event (Int.le_refl 0) (by decide) hok rfl
  obtain ⟨⟨r, sent⟩, hsend, htest⟩ := exists_of_test
    (lockedStation.sendTopo (pairHosts false) ⟨1000000000, 0⟩)
    (fun x => decide (x.1.topoPeriodMs = 6000) && x.2.isSome) (by decide +kernel)
  rw [Bool.and_eq_true, decide_eq_true_eq] at htest
  obtain ⟨hperiod, hsome⟩ := htest
  obtain ⟨out, rfl⟩ := Option.isSome_iff_exists.mp hsome
  obtain ⟨q, hown, hfed⟩ := sendTopo_feeds (by decide) (by decide)
    (by rw [hperiod]; decide) hsend
  have hsame : r.topology = startTopology true := (Except.ok.inj hfed).symm
  have hmissed : TopoRun.Step (pairHosts false) ok ⟨lockedStation, 0, 1000000000, false⟩
      ⟨r, 1000000000, 1000000000 + Duration.ofMillis r.topoPeriodMs, true⟩ :=
    .periodic (by decide) rfl hsend hown hfed
  rw [hperiod] at hmissed
  exact ⟨r, .tail (.single hlock) hmissed, hsame⟩

/-- The lock ends and the cleanup runs at the time `t`. -/
theorem runs_unlocked (ok : TopoRun → Event → Prop) {t : AbsTime} {r : AwdsRouting}
    {topology : RTopology} (hlow : 1000000000 ≤ t) (hhigh : t ≤ 7000000000)
    (hsame : r.topology = startTopology true)
    (hunlock : ok ⟨r, 1000000000, 7000000000, true⟩ ⟨t, .setLocked false⟩)
    (hclean : ok ⟨{ r with topology := startTopology false }, t, 7000000000, true⟩ ⟨t, .cleanup⟩)
    (hrun : (startTopology false).exec (pairHosts false).toStation ⟨t, .cleanup⟩ = .ok topology) :
    TopoRun.Runs (pairHosts false) ok ⟨r, 1000000000, 7000000000, true⟩
      ⟨{ r with topology := topology, topoPeriodType := .adaptive }, t, 7000000000, true⟩ := by
  have hfirst : TopoRun.Step (pairHosts false) ok ⟨r, 1000000000, 7000000000, true⟩
      ⟨{ r with topology := startTopology false }, t, 7000000000, true⟩ := by
    refine .event (e := ⟨t, .setLocked false⟩) hlow hhigh hunlock ?_
    show Except.ok { r.topology with locked := false } = _
    rw [hsame]
    rfl
  exact .tail (.single hfirst) (.event (Int.le_refl t) hhigh hclean hrun)

/-- A lock of two seconds: the own node survives the cleanup, for it is valid until 5 s. -/
theorem own_node_kept_short_lock : ∃ s, TopoRun.Runs (pairHosts false)
      (SurvivesLock (pairHosts false)) (TopoRun.start (pairHosts false) (pairRouting false) 0) s ∧
    s.time = 2000000000 ∧ s.missed = true ∧ s.routing.topology.locked = false ∧
    (pairHosts false).myNodeId ∈ s.routing.topology.adjList ∧
    ∃ period, s.routing.nextTopoPeriod = .ok period := by
  obtain ⟨r, hlocked, hsame⟩ := runs_locked (SurvivesLock (pairHosts false))
    fun _ hc => by cases hc
  obtain ⟨topology, hrun, htest⟩ := exists_of_test
    ((startTopology false).exec (pairHosts false).toStation ⟨2000000000, .cleanup⟩)
    (fun x => !x.locked) (by decide +kernel)
  have halive : Alive 2000000000 (startTopology false).adjList (pairHosts false).myNodeId :=
    ⟨_, by rw [startTopology, init, getElem?_insertAt, if_pos rfl], by decide⟩
  have hunlocked := runs_unlocked (SurvivesLock (pairHosts false)) (by decide) (by decide)
    hsame (fun _ hc => by simp [cleans, sweeps] at hc) (fun _ _ => .inl halive) hrun
  have hruns := hlocked.trans hunlocked
  obtain ⟨hmem, -, -, hperiod⟩ := own_node_kept hruns
  exact ⟨_, hruns, rfl, rfl, by simpa using htest, hmem, hperiod⟩

/-- A lock of six seconds: the cleanup behind it removes the own node, and the next topo packet
divides by zero. -/
theorem own_node_lost : ∃ s, TopoRun.Runs (pairHosts false) (fun _ _ => True)
      (TopoRun.start (pairHosts false) (pairRouting false) 0) s ∧
    (pairHosts false).myNodeId ∉ s.routing.topology.adjList ∧
    s.routing.nextTopoPeriod = .error .divisionByZero := by
  obtain ⟨r, hlocked, hsame⟩ := runs_locked (fun _ _ => True) trivial
  obtain ⟨topology, hrun, htest⟩ := exists_of_test
    ((startTopology false).exec (pairHosts false).toStation ⟨6000000000, .cleanup⟩)
    (fun x => decide ((pairHosts false).myNodeId ∉ x.adjList) && decide (x.adjList.size = 0))
    (by decide +kernel)
  rw [Bool.and_eq_true, decide_eq_true_eq, decide_eq_true_eq] at htest
  have hunlocked := runs_unlocked (fun _ _ => True) (by decide) (by decide) hsame trivial
    trivial hrun
  refine ⟨_, hlocked.trans hunlocked, htest.1, ?_⟩
  show adaptivePeriod topology.adjList.size = _
  rw [htest.2]
  rfl

end Awds.Proofs
