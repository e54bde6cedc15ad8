import Awds.Proofs.Kernel.BufferUse

/-!
# `Awds.Proofs.Kernel.HeaderBounds`: the bytes of a packet the handler reads and writes

Each part of the handler tests the length of a packet by itself or not at all, and the tests
differ from the offsets that are used later. `header_in_bounds_iff` says for which packets on a
bound device all accesses are to bytes of the packet. The Ethernet header in front of the packet
and the fields of the `sk_buff` do not count (`SkbEvent.touch`).

Three kinds of packets go wrong: a flood packet that ends right in front of its flood type, a
unicast packet that ends in front of or inside its destination, and one to be forwarded that
ends in front of its TTL.
-/

set_option autoImplicit false

namespace Awds.Proofs

open Awds.Lib Awds.Kernel Awds.Kernel.AwdsModule

section
variable {net : Net} {calls : RcvCalls} {m m' : AwdsModule} {sk : SockPtr} {own : Bool}
  {skb : SkBuff}

/-- An access to a byte is to one of the packet. -/
def InBounds (skb : SkBuff) : SkbEvent → Prop
  | .read off | .write off => off < skb.len
  | _ => True

instance (skb : SkBuff) : DecidablePred (InBounds skb)
  | .read off | .write off => inferInstanceAs (Decidable (off < skb.len))
  | .touch | .transmitted | .injected | .queued | .freed => .isTrue trivial

/-- The reads of a range are in bounds if the last one is. -/
theorem inBounds_readBytes {off n : Nat} :
    (∀ e ∈ readBytes off (n + 1), InBounds skb e) ↔ off + n < skb.len := by
  simp only [readBytes, List.mem_map, List.mem_range]
  constructor
  · exact fun h => h _ ⟨n, Nat.lt_succ_self n, rfl⟩
  · rintro h _ ⟨i, hi, rfl⟩
    show off + i < skb.len
    omega

/-- The same for writes. -/
theorem inBounds_writeBytes {off n : Nat} :
    (∀ e ∈ writeBytes off (n + 1), InBounds skb e) ↔ off + n < skb.len := by
  simp only [writeBytes, List.mem_map, List.mem_range]
  constructor
  · exact fun h => h _ ⟨n, Nat.lt_succ_self n, rfl⟩
  · rintro h _ ⟨i, hi, rfl⟩
    show off + i < skb.len
    omega

/-- The address in the frame of a packet that is long enough. -/
theorem inBounds_frameMac (hlen : awdsHlen + ethAlen ≤ skb.len) :
    ∀ e ∈ readBytes awdsHlen ethAlen, InBounds skb e :=
  inBounds_readBytes.mpr (Nat.lt_of_lt_of_le (by decide) hlen)

/-- `awds_check_unicast_table` tests the length by itself. -/
theorem inBounds_checkUnicastTable (t : UcDestTable) :
    (t.awdsCheckUnicastTableTraced calls skb).All (InBounds skb) := by
  simp only [UcDestTable.awdsCheckUnicastTableTraced, Traced.All, Traced.events_emit_bind,
    Traced.events_lift, List.append_nil]
  rintro e he
  rcases List.mem_cons.mp he with rfl | he
  · trivial
  · split at he
    · rename_i hlen
      exact inBounds_frameMac hlen.1 e he
    · cases he

/-- Behind a full header only the bytes that `eth_type_trans` reads of a frame can lie outside of
the packet. -/
theorem inBounds_frameAccess (hlen : awdsHlen + ethAlen ≤ skb.len) :
    (∀ e ∈ frameAccess calls, InBounds skb e) ↔
      ∀ k ∈ calls.ethTypeTrans, awdsHlen + k < skb.len := by
  unfold frameAccess
  constructor
  · intro h k hk
    exact h (.read (awdsHlen + k)) (by simp [hk])
  · intro h e he
    rcases List.mem_append.mp he with he | he
    · exact inBounds_frameMac hlen e he
    rcases List.mem_cons.mp he with rfl | he
    · trivial
    · obtain ⟨k, hk, rfl⟩ := List.mem_map.mp he
      exact h k hk

/-- Without a device of the address only the address itself is read, so nothing can go wrong. -/
theorem inBounds_localRetransmit (hlen : awdsHlen + ethAlen ≤ skb.len) :
    (skb.awdsDoLocalRetransmitTraced net calls).All (InBounds skb) ↔
      ((∃ dev, net.devGetbyhwaddr (frameMac skb) = some dev) →
        ∀ k ∈ calls.ethTypeTrans, awdsHlen + k < skb.len) := by
  cases hdev : net.devGetbyhwaddr (frameMac skb) with
  | none =>
    rw [localRetransmit_missing hdev]
    exact iff_of_true (inBounds_frameMac hlen) (by simp)
  | some dev =>
    have hall : (skb.awdsDoLocalRetransmitTraced net calls).All (InBounds skb) ↔
        ∀ e ∈ frameAccess calls, InBounds skb e := by
      rw [localRetransmit_found hdev]
      split
      · simp [Traced.All, InBounds, or_imp, forall_and]
      · simp [Traced.All, InBounds, or_imp, forall_and]
    simpa using hall.trans (inBounds_frameAccess hlen)

/-- The local device: what the module does not test is the header of the frame. -/
theorem inBounds_tryLocal : (m.tryLocalTraced net calls sk own skb).All (InBounds skb) ↔
    (GivenToDevice net calls.now m sk own skb →
      ∀ k ∈ calls.ethTypeTrans, awdsHlen + k < skb.len) := by
  unfold tryLocalTraced
  by_cases hown : (own && decide (m.configuration &&& awdsLocalConfig ≠ 0)) = true
  · rw [if_pos hown, Traced.all_bind]
    obtain ⟨rfl, hconfig⟩ := by simpa using hown
    -- The trace of the check and the check itself have the same result.
    have hcheck : ∀ a, ((m.socks sk).table.awdsCheckUnicastTableTraced calls skb).result = .ok a ↔
        (m.socks sk).table.awdsCheckUnicastTable calls.env skb = .ok a := fun a => Iff.rfl
    simp only [inBounds_checkUnicastTable, true_and, hcheck]
    -- A packet for a device passes the table, so the frame is looked at.
    constructor
    · intro h hgiven
      obtain ⟨t, ht⟩ : ∃ t, (m.socks sk).table.awdsCheckUnicastTable calls.env skb =
          .ok (t, true) := check_of_fresh hgiven.length hgiven.intact hgiven.fresh
      exact (inBounds_localRetransmit hgiven.length).mp (Traced.all_bind.mp (h _ ht)).1
        hgiven.device
    · -- Whatever the table answers, a frame is looked at only if it is given to a device.
      rintro h ⟨t, _ | _⟩ ht
      · simp
      · refine Traced.all_bind.mpr ⟨?_, ?_⟩
        · refine (inBounds_localRetransmit (check_length ht)).mpr fun hdev => h ?_
          exact ⟨rfl, hconfig, check_length ht, check_intact ht, check_allowed ht, hdev⟩
        · rintro (_ | frame) -
          · simp
          · simp
  · rw [if_neg hown]
    refine iff_of_true (by simp) fun hgiven => absurd ?_ hown
    simp [hgiven.own, hgiven.config]

/-- Writing the next hop and the TTL needs the TTL, which is the last of them. -/
theorem inBounds_nextHopAccess :
    (∀ e ∈ nextHopAccess, InBounds skb e) ↔ awdsTtlOffset < skb.len := by
  -- The next hop is in front of the TTL.
  have hhop : awdsTtlOffset < skb.len →
      ∀ e ∈ writeBytes awdsNexthopOffset ethAlen, InBounds skb e := fun h =>
    inBounds_writeBytes.mpr (Nat.lt_trans (by decide) h)
  simp only [nextHopAccess, List.forall_mem_cons, List.forall_mem_append, InBounds,
    List.not_mem_nil]
  exact ⟨fun h => h.1, fun h => ⟨h, h, trivial, hhop h, by simp⟩⟩

/-- A packet that is retransmitted needs the TTL, whether the transmission works or not. -/
theorem inBounds_retransmit (calls : RcvCalls) (e : AwdsRoutingEntry) :
    (skb.awdsDoRetransmitTraced calls e).All (InBounds skb) ↔ awdsTtlOffset < skb.len := by
  cases hsent : skb.awdsDoRetransmitLocked e with
  | none =>
    rw [retransmit_exhausted hsent]
    simp [Traced.All, InBounds]
  | some sent =>
    rw [retransmit_sent hsent, ← inBounds_nextHopAccess]
    simp only [Traced.All, List.forall_mem_append, List.mem_singleton, forall_eq]
    refine and_iff_left ?_
    split
    · trivial
    · trivial

/-- The search for a route reads the destination only. -/
theorem inBounds_checkRouting (hlen : awdsDestOffset + ethAlen ≤ skb.len) :
    (m.awdsCheckRoutingTraced skb).All (InBounds skb) := by
  simp only [awdsCheckRoutingTraced, Traced.All, Traced.events_emit_bind, Traced.events_lift,
    List.append_nil]
  split
  · simp
  · exact inBounds_readBytes.mpr hlen

/-- Forwarding: the offset of the TTL is not tested. -/
theorem inBounds_tryForward (hlen : awdsDestOffset + ethAlen ≤ skb.len) :
    (m.tryForwardTraced calls own skb).All (InBounds skb) ↔
      (own = false → m.configuration &&& awdsForwardConfig ≠ 0 →
        (∃ e, m.awdsCheckRoutingLocked skb = .ok (some e)) → awdsTtlOffset < skb.len) := by
  -- The destination has been read before, so the search stays inside.
  have hsearch : ∀ a, (m.awdsCheckRoutingTraced skb).result = .ok a ↔
      m.awdsCheckRoutingLocked skb = .ok a := fun a => Iff.rfl
  unfold tryForwardTraced
  rw [Traced.all_bind]
  simp only [inBounds_checkRouting hlen, true_and, hsearch]
  constructor
  · rintro h rfl hconfig ⟨e, he⟩
    have hrun := h _ he
    dsimp only at hrun
    rw [if_pos (by simpa using hconfig), Traced.all_bind] at hrun
    exact (inBounds_retransmit calls e).mp hrun.1
  · rintro h (_ | e) he
    · simp
    dsimp only
    split
    · rename_i hown
      obtain ⟨rfl, hconfig⟩ : own = false ∧ m.configuration &&& awdsForwardConfig ≠ 0 := by
        simpa using hown
      refine Traced.all_bind.mpr ⟨(inBounds_retransmit calls e).mpr (h rfl hconfig ⟨e, he⟩), ?_⟩
      rintro (_ | sent) -
      · simp
      · simp
    · simp

/-- Passing a packet up accesses no byte of it. -/
theorem inBounds_passUp (calls : RcvCalls) (sk : SockPtr) :
    (passUpTraced calls sk skb).All (InBounds skb) := by
  simp only [passUpTraced, Traced.All, Traced.events_emit_bind, Traced.events_pure,
    List.append_nil]
  split
  · simp [InBounds]
  · simp [InBounds]

/-- Behind the local device. -/
theorem inBounds_forwardOrPass (hlen : awdsDestOffset + ethAlen ≤ skb.len) :
    (do
      let (m, sent?) ← m.tryForwardTraced calls own skb
      match sent? with
      | some sent => pure (m, .retransmitted sent)
      | none => do
        let v ← passUpTraced calls sk skb
        pure (m, v) : SkbTraced (AwdsModule × Verdict)).All (InBounds skb) ↔
      (own = false → m.configuration &&& awdsForwardConfig ≠ 0 →
        (∃ e, m.awdsCheckRoutingLocked skb = .ok (some e)) → awdsTtlOffset < skb.len) := by
  rw [Traced.all_bind, inBounds_tryForward hlen]
  refine and_iff_left ?_
  rintro ⟨m', _ | sent⟩ -
  · exact Traced.all_bind.mpr ⟨inBounds_passUp calls sk, fun v _ => by simp⟩
  · simp

/-- The unicast case: the destination is read without a test. The bounds of the two ways do not
depend on each other, as the first one is for packets for this station and the second one for
the others. -/
theorem inBounds_deliver {addr : List UInt8}
    (hown : own = decide (memcmp addr (skb.data.read awdsDestOffset ethAlen) = .eq)) :
    (m.deliverTraced net calls sk addr skb).All (InBounds skb) ↔
      awdsDestOffset + ethAlen ≤ skb.len ∧
      (own = false → m.configuration &&& awdsForwardConfig ≠ 0 →
        (∃ e, m.awdsCheckRoutingLocked skb = .ok (some e)) → awdsTtlOffset < skb.len) ∧
      (GivenToDevice net calls.now m sk own skb →
        ∀ k ∈ calls.ethTypeTrans, awdsHlen + k < skb.len) := by
  unfold deliverTraced
  rw [Traced.all_emit_bind, inBounds_readBytes]
  refine and_congr_right fun hlen => ?_
  simp only [← hown]
  rw [Traced.all_bind, inBounds_tryLocal, and_comm]
  refine and_congr_left fun _ => ?_
  cases own with
  | true =>
    -- A packet for this station is not forwarded.
    refine iff_of_true ?_ (by simp)
    rintro ⟨m', _ | ⟨dev, frame⟩⟩ -
    · exact (inBounds_forwardOrPass hlen).mpr (by simp)
    · simp
  | false =>
    have hlocal : m.tryLocalTraced net calls sk false skb = pure (m, none) := rfl
    rw [hlocal]
    refine Iff.trans ⟨fun h => h _ rfl, fun h a ha => ?_⟩ (inBounds_forwardOrPass hlen)
    cases ha
    exact h

/-- Counting reads the type of a flood packet that is long enough for the test, but one byte too
short for the read. -/
theorem inBounds_count (m : AwdsModule) (skb : SkBuff) :
    (m.countTraced skb).All (InBounds skb) ↔ (m.statistics = true → ethAlen + 3 ≤ skb.len →
      skb.data 0 = packetFlood → skb.len ≠ awdsFloodtypeOffset) := by
  unfold countTraced
  cases m.statistics with
  | false => simp
  | true =>
    simp only [if_true, Traced.all_bind, countPacket_run, Traced.all_pure, implies_true, and_true]
    show (∀ e ∈ (if skb.len < ethAlen + 3 then _ else _), InBounds skb e) ↔ _
    split
    · rename_i hlen
      exact iff_of_true (by simp [InBounds]) (fun _ h => absurd h (Nat.not_le.mpr hlen))
    · rename_i hlen
      have hfirst : 0 < skb.len := Nat.lt_of_lt_of_le (by decide) (Nat.not_lt.mp hlen)
      simp only [List.forall_mem_cons, InBounds, hfirst, true_and, Nat.not_lt.mp hlen, true_imp_iff]
      -- The test compares the length with the offset, and the byte is the one behind it.
      by_cases hflood : skb.data 0 = packetFlood
      · by_cases hend : awdsFloodtypeOffset ≤ skb.len
        · simp only [hflood, hend, and_self, if_true, List.mem_singleton, forall_eq, true_imp_iff]
          show awdsFloodtypeOffset < skb.len ↔ _
          omega
        · simp only [hflood, hend, and_false, if_false, List.not_mem_nil, false_imp_iff,
            implies_true, true_imp_iff, true_iff]
          omega
      · simp [hflood]

variable {own : NodeId} {p : InstancePtr} {ps : List InterfacePtr} {i : Nat}

/-- The packets that the handler takes for unicast packets. -/
theorem packetType_unicast_iff : skb.awdsGetPacketType = packetUnicast.toNat ↔
    ethAlen + 3 ≤ skb.len ∧ skb.data 0 = packetUnicast := by
  unfold SkBuff.awdsGetPacketType
  split
  · rename_i hlen
    exact iff_of_false (by decide) fun h => absurd h.1 (Nat.not_le.mpr hlen)
  · rename_i hlen
    rw [Nat.cast_inj, UInt8.toNat_inj]
    exact (and_iff_right (Nat.not_lt.mp hlen)).symm

/-- A unicast packet on a bound device is long enough: for its destination, for the TTL if it is
to be forwarded, and for the header of its frame if this is given to a device. -/
structure UnicastFits (net : Net) (calls : RcvCalls) (m : AwdsModule) (sk : SockPtr)
    (own : NodeId) (skb : SkBuff) : Prop where
  dest : awdsDestOffset + ethAlen ≤ skb.len
  ttl : NodeId.fromArray (skb.data.read awdsDestOffset ethAlen) ≠ own →
    m.configuration &&& awdsForwardConfig ≠ 0 →
    (∃ e, m.awdsCheckRoutingLocked skb = .ok (some e)) → awdsTtlOffset < skb.len
  frame : GivenToDevice net calls.now m sk
      (decide (NodeId.fromArray (skb.data.read awdsDestOffset ethAlen) = own)) skb →
    ∀ k ∈ calls.ethTypeTrans, awdsHlen + k < skb.len

/-- The statistics do not matter for what a packet has to be. -/
theorem UnicastFits.withStats (h : UnicastFits net calls m sk own skb)
    (s : AwdsPacketStatistic) : UnicastFits net calls (withStats s m) sk own skb := by
  have hsearch := checkRouting_withStats s m skb
  refine ⟨h.dest, fun hother hconfig hentry => h.ttl hother hconfig (hsearch ▸ hentry), ?_⟩
  intro hgiven
  have hback : GivenToDevice net calls.env.now (Awds.Proofs.withStats s m) sk _ skb := hgiven
  exact h.frame (hback.withStats m.awdsStats)

/-- The handler of unicast packets, case by case: the packet is for this station, or forwarding is
on and there is a route, or it is passed up. -/
theorem inBounds_rcvUnicast (h : Receives m skb.dev own p sk ps i) :
    (m.rcvUnicastTraced net calls p sk skb).All (InBounds skb) ↔
      UnicastFits net calls m sk own skb := by
  obtain ⟨q, f, hq, hf, haddr⟩ := h.interface
  have hself : decide (NodeId.fromArray (skb.data.read awdsDestOffset ethAlen) = own) =
      decide (memcmp f.addr.saAddr (skb.data.read awdsDestOffset ethAlen) = .eq) := by
    rw [haddr]
    exact decide_eq_decide.mpr (memcmp_toArray (Buffer.length_read _ _ _)).symm
  unfold rcvUnicastTraced
  rw [Traced.lift_bind_of_ok hq]
  dsimp only
  rw [Traced.lift_bind_of_ok hf, inBounds_deliver hself]
  simp only [decide_eq_false_iff_not]
  constructor
  · rintro ⟨hdest, httl, hframe⟩
    exact ⟨hdest, httl, hframe⟩
  · intro h
    exact ⟨h.dest, h.ttl, h.frame⟩

/-- The handler with the lookups of the instance and of its socket. -/
theorem inBounds_packetRcv (h : Receives m skb.dev own p sk ps i)
    (hproto : skb.protocol = ethPAwds) (hmutex : m.mutex = true) :
    (m.awdsPacketRcvTraced net calls skb).All (InBounds skb) ↔
      (m.countTraced skb).All (InBounds skb) ∧
        (skb.awdsGetPacketType = packetUnicast.toNat → UnicastFits net calls m sk own skb) := by
  obtain ⟨s, hs⟩ := counted_eq m skb
  have hcount : (m.countTraced skb).result = .ok (withStats s m) := by
    rw [result_count, hs]
    rfl
  have htype : skb.awdsGetPacketTypeTraced.All (InBounds skb) := by
    simp only [SkBuff.awdsGetPacketTypeTraced, Traced.All, Traced.events_emit_bind,
      Traced.events_pure, List.append_nil]
    split
    · simp [InBounds]
    · rename_i hlen
      have hfirst : 0 < skb.len := Nat.lt_of_lt_of_le (by decide) (Nat.not_lt.mp hlen)
      simp [InBounds, hfirst]
  unfold awdsPacketRcvTraced
  rw [if_neg (not_not.mpr hproto), Traced.all_emit_bind, Traced.lift_bind_of_ok (h.byDev hmutex)]
  dsimp only
  rw [Traced.all_bind]
  -- The counters change in between.
  refine (and_iff_right (by simp [InBounds])).trans (and_congr_right fun _ => ?_)
  rw [hcount]
  simp only [Except.ok.injEq, forall_eq']
  have hcounted : Receives (withStats s m) skb.dev own p sk ps i := h.counted s
  have hfits : UnicastFits net calls (withStats s m) sk own skb ↔
      UnicastFits net calls m sk own skb :=
    ⟨fun hf => hf.withStats m.awdsStats, fun hf => hf.withStats s⟩
  rw [Traced.lift_bind_of_ok hcounted.sock, Traced.all_bind]
  refine (and_iff_right htype).trans ?_
  have hget : skb.awdsGetPacketTypeTraced.result = .ok skb.awdsGetPacketType := rfl
  simp only [hget, Except.ok.injEq, forall_eq']
  split
  · rename_i hunicast
    rw [inBounds_rcvUnicast hcounted, hfits]
    exact ⟨fun hf _ => hf, fun hf => hf hunicast⟩
  · rename_i hunicast
    refine iff_of_true ?_ fun hc => absurd hc hunicast
    exact Traced.all_bind.mpr ⟨inBounds_passUp calls sk, fun v _ => by simp⟩

/-- Take a packet on a bound device. All bytes of the packet that the handler reads and writes
are inside the packet if and only if these are true of a packet of the protocol with at least
9 bytes, where some thread holds `awds_instance_mutex`: a flood packet that is counted does not
have exactly 17 bytes, and a unicast packet has 15 bytes and 22 if it is to be forwarded. The
header of a frame that is given to a device has to have the bytes that `eth_type_trans` reads. -/
theorem header_in_bounds_iff (h : Receives m skb.dev own p sk ps i) :
    (m.awdsPacketRcvTraced net calls skb).All (InBounds skb) ↔
      (m.mutex = true → skb.protocol = ethPAwds → ethAlen + 3 ≤ skb.len →
        (m.statistics = true → skb.data 0 = packetFlood → skb.len ≠ awdsFloodtypeOffset) ∧
        (skb.data 0 = packetUnicast → UnicastFits net calls m sk own skb)) := by
  by_cases hproto : skb.protocol = ethPAwds
  · by_cases hmutex : m.mutex = true
    · rw [inBounds_packetRcv h hproto hmutex, inBounds_count, packetType_unicast_iff]
      constructor
      · rintro ⟨hcount, hunicast⟩ - - hlen
        exact ⟨fun hstat => hcount hstat hlen, fun htype => hunicast ⟨hlen, htype⟩⟩
      · intro hcond
        exact ⟨fun hstat hlen => (hcond hmutex hproto hlen).1 hstat,
          fun htype => (hcond hmutex hproto htype.1).2 htype.2⟩
    · -- No instance is found while nobody holds the mutex.
      have hnone := findByDev_unlocked skb.dev (Bool.not_eq_true _ ▸ hmutex)
      refine iff_of_true ?_ fun hc => absurd hc hmutex
      simp only [awdsPacketRcvTraced, hproto, ne_eq, not_true_eq_false, if_false,
        Traced.lift_bind_of_ok hnone]
      simp [Traced.All, InBounds]
  · refine iff_of_true ?_ fun _ hc => absurd hc hproto
    simp [awdsPacketRcvTraced, hproto, Traced.All, InBounds]

/-- A packet that is forwarded stays in bounds. -/
theorem header_in_bounds_relay : ((relayModule true).awdsPacketRcvTraced twoDevices { now := 0 }
    { skbOf (transitPacket 1) with dev := 10 }).All
      (InBounds { skbOf (transitPacket 1) with dev := 10 }) :=
  (header_in_bounds_iff (receives_relayModule true)).mpr fun _ _ _ =>
    ⟨fun _ hflood => absurd hflood (by decide +kernel), fun _ =>
      ⟨by decide +kernel, fun _ _ _ => by decide +kernel, fun _ k hk => by cases hk⟩⟩

/-- A flood packet of 17 bytes, a unicast packet of 9 bytes, and one for another station of 21
bytes. -/
theorem header_out_of_bounds :
    ¬((relayModule true).awdsPacketRcvTraced twoDevices { now := 0 }
      { skbOf (BasePacket.new.setType .flood) with dev := 10, len := 17 }).All
        (InBounds { skbOf (BasePacket.new.setType .flood) with dev := 10, len := 17 }) ∧
    ¬((relayModule true).awdsPacketRcvTraced twoDevices { now := 0 }
      { skbOf (transitPacket 1) with dev := 10, len := 9 }).All
        (InBounds { skbOf (transitPacket 1) with dev := 10, len := 9 }) ∧
    ¬((relayModule true).awdsPacketRcvTraced twoDevices { now := 0 }
      { skbOf (transitPacket 1) with dev := 10, len := 21 }).All
        (InBounds { skbOf (transitPacket 1) with dev := 10, len := 21 }) := by
  unfold Traced.All
  decide +kernel

end

end Awds.Proofs
