import Awds.Kernel.BufferTrace
import Awds.Proofs.Kernel.LocalDelivery
import Awds.Proofs.Kernel.RoutingIoctl

/-!
# `Awds.Proofs.Kernel.BufferUse`: the packet handler uses the buffer up once

The handler tries to give a packet to the local device, to forward it, and to put it into the
queue of the socket, in this order. It goes on with the next way when one fails, but the first
two consume the buffer whether they succeed or not.

`packetRcv_usedOnce` connects the traced handler with `awdsPacketRcv`, which ends in
`Oops.useAfterFree` where a buffer has been consumed in vain: each of the first two ways is an
`Attempt`. `packetRcv_returns_iff` says when this handler comes to its end, and
`disposes_once_iff` is the result for the buffer, over all states of the module and all results
of the calls of the kernel. `used_twice` has a run for each way to fail.
-/

set_option autoImplicit false

namespace Awds.Proofs

open Awds.Lib Awds.Kernel Awds.Kernel.AwdsModule

/-! ### The lookups change nothing -/

section
variable {m m' : AwdsModule} {p : InstancePtr} {dev : DevPtr}

/-- The lookup of an interface takes the lock of the instance and gives it back, so a call that
returns leaves the module as it was. -/
theorem findInterface_eq {found : Option InterfacePtr}
    (h : m.awdsFindInterface p dev = .ok (m', found)) : m' = m := by
  unfold awdsFindInterface at h
  obtain ⟨m1, hlock, h⟩ := bind_eq_ok.mp h
  obtain ⟨found', -, h⟩ := bind_eq_ok.mp h
  obtain ⟨m2, hunlock, h⟩ := bind_eq_ok.mp h
  cases h
  obtain ⟨i, hi, hfree, rfl⟩ := lockInst_eq_ok.mp hlock
  obtain ⟨j, hj, -, rfl⟩ := unlockInst_eq_ok.mp hunlock
  -- The instance is unlocked as it was before.
  have hj' : j = { i with locked := true } := by simpa [setInst, eq_comm] using hj
  have hsame : ({ j with locked := false } : AwdsInstance) = i := by rw [hj', ← hfree]
  rw [hsame, setInst_twice hi]

/-- The search for the instance of a device calls that lookup for each slot. The induction is on the
number of slots that are left. -/
theorem findByDevLoop_eq {found : Option InstancePtr} {n k : Nat}
    (h : findByDevLoop dev n k m = .ok (m', found)) : m' = m := by
  induction n generalizing k m with
  | zero =>
    cases h
    rfl
  | succ n ih =>
    rw [findByDevLoop] at h
    split at h
    · cases h
    · obtain ⟨⟨m1, interface?⟩, hface, hrest⟩ := bind_eq_ok.mp h
      rw [findInterface_eq hface] at hrest
      dsimp only at hrest
      split at hrest
      · cases hrest
        rfl
      · exact ih hrest

/-- The same for the whole search, which is empty without instances. -/
theorem findInstanceByDev_eq {found : Option InstancePtr}
    (h : m.awdsFindInstanceByDevLocked dev = .ok (m', found)) : m' = m := by
  unfold awdsFindInstanceByDevLocked at h
  split at h
  · cases h
    rfl
  · exact findByDevLoop_eq h

/-- The counters. -/
def withStats (s : AwdsPacketStatistic) (m : AwdsModule) : AwdsModule := { m with awdsStats := s }

/-- The lock of an instance has nothing to do with the counters. -/
theorem lockInst_stats (s : AwdsPacketStatistic) :
    (withStats s m).lockInst p = (m.lockInst p).map (withStats s) := by
  unfold lockInst inst
  rw [show (withStats s m).instances p = m.instances p from rfl]
  cases m.instances p with
  | none => rfl
  | some i => cases hi : i.locked <;> simp [hi, Except.map, withStats, setInst]

/-- Nor has giving it back. -/
theorem unlockInst_stats (s : AwdsPacketStatistic) :
    (withStats s m).unlockInst p = (m.unlockInst p).map (withStats s) := by
  unfold unlockInst inst
  rw [show (withStats s m).instances p = m.instances p from rfl]
  cases m.instances p with
  | none => rfl
  | some i => cases hi : i.locked <;> simp [hi, Except.map, withStats, setInst]

/-- The list of interfaces is read without the counters. The induction is on the fuel. -/
theorem findInterfaceLoop_stats (s : AwdsPacketStatistic) (n : Nat) (first : Option InterfacePtr) :
    (withStats s m).findInterfaceLoop dev n first = m.findInterfaceLoop dev n first := by
  induction n generalizing first with
  | zero => rfl
  | succ n ih =>
    cases first with
    | none => rfl
    | some q => simp only [findInterfaceLoop, iface, withStats, ← ih]

/-- The interfaces are found without the counters. -/
theorem findInterface_stats {found : Option InterfacePtr}
    (h : m.awdsFindInterface p dev = .ok (m, found)) (s : AwdsPacketStatistic) :
    (withStats s m).awdsFindInterface p dev = .ok (withStats s m, found) := by
  unfold awdsFindInterface at h ⊢
  obtain ⟨m1, hlock, h⟩ := bind_eq_ok.mp h
  obtain ⟨found', hfind, h⟩ := bind_eq_ok.mp h
  obtain ⟨m2, hunlock, h⟩ := bind_eq_ok.mp h
  cases h
  have hsame : (withStats s m1).awdsFindInterfaceLocked p dev =
      m1.awdsFindInterfaceLocked p dev := by
    unfold awdsFindInterfaceLocked
    simp only [findInterfaceLoop_stats]
    rfl
  rw [lockInst_stats, hlock]
  show ((withStats s m1).awdsFindInterfaceLocked p dev >>= _) = _
  rw [hsame, hfind, except_bind_ok, unlockInst_stats, hunlock]
  rfl

end

/-! ### The table of unicast destinations -/

section
variable {t t' : UcDestTable} {env : RcvEnv} {skb : SkBuff} {allowed : Bool}

/-- The address in the frame of a packet. -/
def frameMac (skb : SkBuff) : List UInt8 := skb.data.read awdsHlen ethAlen

/-- The address is in the table with a time that is not too old. -/
def InTime (t : UcDestTable) (now : Int) (mac : List UInt8) : Prop :=
  ∃ e, t.entries.find? (fun e => decide (e.mac = mac)) = some e ∧ ¬UcDestTable.tooOld now e

/-- Only a packet that is long enough to have the address of a frame is allowed. A shorter one is
refused before the table is read. -/
theorem check_length (h : t.awdsCheckUnicastTable env skb = .ok (t', true)) :
    awdsHlen + ethAlen ≤ skb.len := by
  by_contra hlen
  simp [UcDestTable.awdsCheckUnicastTable, Nat.not_le.mp hlen] at h

/-- Only an intact table allows a packet, since a table that was freed is a use after free. -/
theorem check_intact (h : t.awdsCheckUnicastTable env skb = .ok (t', true)) : t.freed = false := by
  have hlen := check_length h
  cases hfreed : t.freed with
  | false => rfl
  | true => simp [UcDestTable.awdsCheckUnicastTable, Nat.not_lt.mpr hlen, hfreed] at h

/-- A fresh address is found. -/
theorem check_of_fresh (hlen : awdsHlen + ethAlen ≤ skb.len) (hintact : t.freed = false)
    (hfresh : InTime t env.now (frameMac skb)) :
    ∃ t', t.awdsCheckUnicastTable env skb = .ok (t', true) := by
  obtain ⟨e, he, hold⟩ := hfresh
  -- The loop stops at the entry and does not remove it.
  have hrest := scan_rest env.now (frameMac skb) t.entries
  rw [he] at hrest
  unfold UcDestTable.awdsCheckUnicastTable
  rw [if_neg (Nat.not_lt.mpr hlen), hintact, if_neg Bool.false_ne_true]
  unfold frameMac at hrest
  dsimp only
  split
  · rename_i front x es hscan
    rw [hscan] at hrest
    cases hrest
    exact ⟨_, if_neg hold⟩
  · rename_i front hscan
    rw [hscan] at hrest
    cases hrest

end

/-! ### The parts of the handler -/

section
variable {net : Net} {calls : RcvCalls} {m m' : AwdsModule} {sk : SockPtr} {own : Bool}
  {skb : SkBuff}

/-- The event hands the buffer over. -/
def Consumes (e : SkbEvent) : Prop := e.consumes = true

instance : DecidablePred Consumes := fun e => inferInstanceAs (Decidable (e.consumes = true))

/-- Consuming is decided by the event alone. -/
@[simp] theorem consumes_iff (e : SkbEvent) : Consumes e ↔ e.consumes = true := Iff.rfl

/-- Reading bytes of the buffer does not consume it. -/
@[simp] theorem spares_readBytes (off n : Nat) : ∀ e ∈ readBytes off n, ¬Consumes e := by
  simp [readBytes, SkbEvent.consumes]

/-- The accesses of `__awds_do_local_retransmit` in front of `netif_rx_ni`. -/
def frameAccess (calls : RcvCalls) : List SkbEvent :=
  readBytes awdsHlen ethAlen ++ .touch :: calls.ethTypeTrans.map fun i => .read (awdsHlen + i)

/-- The accesses in front of `netif_rx_ni` do not consume the buffer. -/
theorem spares_frameAccess (calls : RcvCalls) : ∀ e ∈ frameAccess calls, ¬Consumes e := by
  simp only [frameAccess, List.mem_append]
  rintro e (he | he)
  · exact spares_readBytes _ _ e he
  · rcases List.mem_cons.mp he with rfl | he
    · simp [SkbEvent.consumes]
    · obtain ⟨i, -, rfl⟩ := List.mem_map.mp he
      simp [SkbEvent.consumes]

/-- Without a device of the address the buffer is read and left alone. -/
theorem localRetransmit_missing (h : net.devGetbyhwaddr (frameMac skb) = none) :
    skb.awdsDoLocalRetransmitTraced net calls = ⟨readBytes awdsHlen ethAlen, .ok none⟩ := by
  unfold frameMac at h
  simp [SkBuff.awdsDoLocalRetransmitTraced, h, Bind.bind, Traced.emit, Pure.pure]

/-- With a device the buffer is given to it. If the call fails, the function goes on to touch the
buffer, which is no longer its own. -/
theorem localRetransmit_found {dev : DevPtr} (h : net.devGetbyhwaddr (frameMac skb) = some dev) :
    skb.awdsDoLocalRetransmitTraced net calls = if calls.netifRxNi = 0 then
      ⟨frameAccess calls ++ [.injected],
        .ok (some (dev, skb.data.read awdsHlen (skb.len - awdsHlen)))⟩
    else ⟨frameAccess calls ++ [.injected, .touch], .ok none⟩ := by
  unfold frameMac at h
  split
  · simp [SkBuff.awdsDoLocalRetransmitTraced, Bind.bind, Traced.emit, Pure.pure, frameAccess, *]
  · simp [SkBuff.awdsDoLocalRetransmitTraced, Bind.bind, Traced.emit, Pure.pure, frameAccess, *]

/-- The untraced function without a device. -/
theorem localRetransmitLocked_missing (h : net.devGetbyhwaddr (frameMac skb) = none) :
    skb.awdsDoLocalRetransmitLocked net calls.env = .ok none := by
  unfold frameMac at h
  simp [SkBuff.awdsDoLocalRetransmitLocked, h]

/-- The untraced function with a device. The touch behind a failed call is a use after free. -/
theorem localRetransmitLocked_found {dev : DevPtr}
    (h : net.devGetbyhwaddr (frameMac skb) = some dev) :
    skb.awdsDoLocalRetransmitLocked net calls.env = if calls.netifRxNi = 0 then
      .ok (some (dev, skb.data.read awdsHlen (skb.len - awdsHlen)))
    else .error .useAfterFree := by
  unfold frameMac at h
  simp [SkBuff.awdsDoLocalRetransmitLocked, h, RcvCalls.env]

/-- The check of the table reads bytes of the packet and consumes nothing. -/
theorem spares_checkUnicastTable (t : UcDestTable) :
    (t.awdsCheckUnicastTableTraced calls skb).All fun e => ¬Consumes e := by
  intro e he
  simp only [UcDestTable.awdsCheckUnicastTableTraced, Traced.events_emit_bind,
    Traced.events_lift, List.append_nil] at he
  rcases List.mem_cons.mp he with rfl | he
  · simp [SkbEvent.consumes]
  · split at he
    · exact spares_readBytes _ _ e he
    · cases he

/-- The local device is a way to use the buffer up. -/
theorem tryLocal_attempt (net : Net) (calls : RcvCalls) (m : AwdsModule) (sk : SockPtr)
    (own : Bool) (skb : SkBuff) :
    Attempt Consumes (m.tryLocalTraced net calls sk own skb)
      (m.tryLocal net calls.env sk own skb) := by
  unfold tryLocalTraced tryLocal
  split
  · refine .bind_of_spares (spares_checkUnicastTable _) rfl ?_
    rintro ⟨t, allowed⟩
    cases allowed with
    | false => exact .goesOn (by simp) rfl
    | true =>
      simp only [Bool.not_true, Bool.false_eq_true, if_false]
      cases hdev : net.devGetbyhwaddr (frameMac skb) with
      | none =>
        -- No device has the address.
        rw [localRetransmit_missing hdev, localRetransmitLocked_missing hdev]
        exact .goesOn (by simpa [Traced.All] using spares_readBytes awdsHlen ethAlen) rfl
      | some dev =>
        rw [localRetransmit_found hdev, localRetransmitLocked_found hdev]
        have hspare := spares_frameAccess calls
        -- The device takes the buffer in both cases.
        by_cases hrx : calls.netifRxNi = 0
        · rw [if_pos hrx, if_pos hrx]
          refine .done ?_ rfl
          simp only [Traced.events_ok_bind, Traced.events_pure, List.append_nil]
          exact (usedOnce_append_of_spares hspare).mpr (usedOnce_singleton rfl)
        · rw [if_neg hrx, if_neg hrx]
          exact .lost ⟨.injected, by simp, rfl⟩ rfl
  · exact .goesOn (by simp) rfl

/-- The lookup in the routing table reads the destination and consumes nothing. -/
theorem spares_checkRouting (m : AwdsModule) (skb : SkBuff) :
    (m.awdsCheckRoutingTraced skb).All fun e => ¬Consumes e := by
  intro e he
  simp only [awdsCheckRoutingTraced, Traced.events_emit_bind, Traced.events_lift,
    List.append_nil] at he
  split at he
  · cases he
  · exact spares_readBytes _ _ e he

/-- The accesses of `__awds_do_retransmit` and `awds_send` in front of `dev_queue_xmit`. -/
def nextHopAccess : List SkbEvent :=
  .read awdsTtlOffset :: .write awdsTtlOffset :: .touch ::
    (writeBytes awdsNexthopOffset ethAlen ++ [.touch])

/-- The accesses in front of `dev_queue_xmit` do not consume the buffer. -/
theorem spares_nextHopAccess : ∀ e ∈ nextHopAccess, ¬Consumes e := by decide

/-- A TTL that runs out is read, and nothing else happens. -/
theorem retransmit_exhausted {e : AwdsRoutingEntry} (h : skb.awdsDoRetransmitLocked e = none) :
    skb.awdsDoRetransmitTraced calls e = ⟨[.read awdsTtlOffset], .ok none⟩ := by
  unfold SkBuff.awdsDoRetransmitTraced
  rw [h]
  rfl

/-- A packet with a TTL is consumed by the device, or freed where the device is down. What the
function returns depends on the result of the call alone. -/
theorem retransmit_sent {e : AwdsRoutingEntry} {sent : SkBuff}
    (h : skb.awdsDoRetransmitLocked e = some sent) :
    skb.awdsDoRetransmitTraced calls e =
      ⟨nextHopAccess ++ [if calls.devUp then .transmitted else .freed],
        .ok (if calls.sendErr = 0 then some sent else none)⟩ := by
  unfold SkBuff.awdsDoRetransmitTraced
  rw [h]
  rfl

/-- Forwarding is a way to use the buffer up. -/
theorem tryForward_attempt (calls : RcvCalls) (m : AwdsModule) (own : Bool) (skb : SkBuff) :
    Attempt Consumes (m.tryForwardTraced calls own skb) (m.tryForward calls.env own skb) := by
  unfold tryForwardTraced tryForward
  refine .bind_of_spares (spares_checkRouting m skb) rfl ?_
  rintro (_ | e)
  · exact .goesOn (by simp) rfl
  dsimp only
  split
  · cases hsent : skb.awdsDoRetransmitLocked e with
    | none =>
      rw [retransmit_exhausted hsent]
      exact .goesOn (by simp [Traced.All, SkbEvent.consumes]) rfl
    | some sent =>
      rw [retransmit_sent hsent]
      -- A device that is down frees the buffer, and the queue of a device consumes it.
      have hused : Consumes (if calls.devUp then .transmitted else .freed) := by
        split
        · rfl
        · rfl
      by_cases herr : calls.sendErr = 0
      · simp only [herr, if_true, RcvCalls.env, decide_true, Bool.not_true, Bool.false_eq_true,
          if_false]
        refine .done ?_ rfl
        simp only [Traced.events_ok_bind, Traced.events_pure, List.append_nil]
        exact (usedOnce_append_of_spares spares_nextHopAccess).mpr (usedOnce_singleton hused)
      · simp only [herr, if_false, RcvCalls.env, decide_false, Bool.not_false, if_true]
        exact .lost ⟨_, by simp, hused⟩ rfl
  · exact .goesOn (by simp) rfl

/-- The end of the handler uses the buffer up. -/
theorem passUp_usedOnce (calls : RcvCalls) (sk : SockPtr) (skb : SkBuff) :
    UsedOnce Consumes (passUpTraced calls sk skb).events := by
  simp only [passUpTraced, Traced.events_emit_bind, Traced.events_pure, List.append_nil]
  split
  · exact usedOnce_singleton rfl
  · exact ⟨[.touch], .freed, rfl, rfl, by simp [SkbEvent.consumes]⟩

/-- The end of the handler with the state of the module. -/
theorem passUp_pair_usedOnce (calls : RcvCalls) (sk : SockPtr) (skb : SkBuff) (m' : AwdsModule)
    (v' : Verdict) : UsedOnce Consumes (passUpTraced calls sk skb >>= fun v =>
      (pure (m', v) : SkbTraced (AwdsModule × Verdict))).events ↔
        ∃ r, (.ok (m', v') : KResult (AwdsModule × Verdict)) = .ok r := by
  rw [Traced.events_bind_of_ok rfl, Traced.events_pure, List.append_nil]
  exact iff_of_true (passUp_usedOnce calls sk skb) ⟨_, rfl⟩

/-- A packet that is passed up is queued or freed, so its events are not empty. -/
theorem passUp_events (calls : RcvCalls) (sk : SockPtr) (skb : SkBuff) :
    (passUpTraced calls sk skb).events ≠ [] := by
  simp only [passUpTraced, Traced.events_emit_bind, Traced.events_pure, List.append_nil]
  split
  · simp
  · simp

/-- Behind an attempt to deliver, the handler touches the buffer again. -/
theorem tryForward_passUp_events {f : AwdsModule × Option SkBuff → SkbTraced (AwdsModule × Verdict)}
    (hf : ∀ m', (f (m', none)).events ≠ []) :
    (m.tryForwardTraced calls own skb >>= f).events ≠ [] := by
  by_cases hcount : m.awdsRoutingCount = 0
  · have hnone : m.tryForwardTraced calls own skb = ⟨[], .ok (m, none)⟩ := by
      simp [tryForwardTraced, awdsCheckRoutingTraced, hcount, checkRouting_of_empty hcount]
      rfl
    rw [hnone]
    exact hf m
  · -- The search reads the address.
    have hread : (m.awdsCheckRoutingTraced skb).events ≠ [] := by
      simp [awdsCheckRoutingTraced, hcount, readBytes]
    exact Traced.events_bind_ne_nil (Traced.events_bind_ne_nil hread)

/-- The buffer is used up once exactly if the handler of `Awds.Kernel.Packets` returns: it ends
in an error where a buffer has been used up in vain. -/
theorem rcvUnicast_usedOnce (net : Net) (calls : RcvCalls) (m : AwdsModule) (p : InstancePtr)
    (sk : SockPtr) (skb : SkBuff) :
    UsedOnce Consumes (m.rcvUnicastTraced net calls p sk skb).events ↔
      ∃ r, m.rcvUnicast net calls.env p sk skb = .ok r := by
  unfold rcvUnicastTraced rcvUnicast
  refine usedOnce_bind_iff (by simp) rfl ?_
  rintro ⟨m1, _ | ptr⟩
  · exact iff_of_false (not_usedOnce_of_spares (by simp)) (by simp)
  refine usedOnce_bind_iff (by simp) rfl ?_
  intro i
  rw [deliverTraced, Traced.events_emit_bind, usedOnce_append_of_spares (spares_readBytes _ _)]
  have hpass := passUp_pair_usedOnce calls sk skb
  have hpassed : ∀ m' : AwdsModule, (passUpTraced calls sk skb >>= fun v =>
      (pure (m', v) : SkbTraced (AwdsModule × Verdict))).events ≠ [] :=
    fun m' => Traced.events_bind_ne_nil (passUp_events calls sk skb)
  -- The two attempts are tried one after the other, and the rest goes to the daemon.
  refine (tryLocal_attempt net calls m1 sk _ skb).usedOnce_bind ?_ ?_ ?_
  · exact fun m' frame => ⟨rfl, _, rfl⟩
  · intro m'
    refine (tryForward_attempt calls m' _ skb).usedOnce_bind ?_ ?_ ?_
    · exact fun m' sent => ⟨rfl, _, rfl⟩
    · exact fun m' => hpass m' _
    · exact fun m' => hpassed m'
  · exact fun m' => tryForward_passUp_events fun m'' => hpassed m''

/-- What `awds_count_packet` does. -/
theorem countPacket_run (s : AwdsPacketStatistic) (skb : SkBuff) :
    s.awdsCountPacketTraced skb = ⟨if skb.len < ethAlen + 3 then [.touch]
      else .touch :: .read 0 :: if skb.data 0 = packetFlood ∧ skb.len ≥ awdsFloodtypeOffset then
        [.read awdsFloodtypeOffset] else [], .ok (s.awdsCountPacket skb)⟩ := by
  unfold AwdsPacketStatistic.awdsCountPacketTraced
  by_cases hlen : skb.len < ethAlen + 3
  · simp [hlen, AwdsPacketStatistic.awdsCountPacket, Bind.bind, Traced.emit, Pure.pure]
  · simp [hlen, Bind.bind, Traced.emit, Pure.pure]

/-- The counting of packets reads the type and consumes nothing. -/
theorem spares_count (m : AwdsModule) (skb : SkBuff) :
    (m.countTraced skb).All fun e => ¬Consumes e := by
  unfold countTraced
  split
  · rw [countPacket_run]
    simp only [Traced.All, Traced.events_ok_bind, Traced.events_pure, List.append_nil]
    split_ifs
    · simp [SkbEvent.consumes]
    · simp [SkbEvent.consumes]
    · simp [SkbEvent.consumes]
  · simp

/-- With statistics the packet is counted, and the result is the module with the new counters. -/
theorem result_count (m : AwdsModule) (skb : SkBuff) :
    (m.countTraced skb).result = .ok (if m.statistics then
      { m with awdsStats := m.awdsStats.awdsCountPacket skb } else m) := by
  unfold countTraced
  split
  · rw [countPacket_run]
    rfl
  · rfl

/-- Reading the type of a packet consumes nothing. -/
theorem spares_packetType (skb : SkBuff) :
    skb.awdsGetPacketTypeTraced.All fun e => ¬Consumes e := by
  simp only [SkBuff.awdsGetPacketTypeTraced, Traced.All, Traced.events_emit_bind,
    Traced.events_pure, List.append_nil]
  split
  · simp [SkbEvent.consumes]
  · simp [SkbEvent.consumes]

/-- The handler uses the buffer of a packet of the protocol up once exactly if it comes to its
end in `Awds.Kernel.Packets`. -/
theorem packetRcv_usedOnce (net : Net) (calls : RcvCalls) (m : AwdsModule) {skb : SkBuff}
    (hproto : skb.protocol = ethPAwds) :
    UsedOnce Consumes (m.awdsPacketRcvTraced net calls skb).events ↔
      ∃ r, m.awdsPacketRcv net calls.env skb = .ok r := by
  unfold awdsPacketRcvTraced awdsPacketRcv
  rw [if_neg (not_not.mpr hproto), if_neg (not_not.mpr hproto), Traced.events_emit_bind,
    usedOnce_append_of_spares (by simp [SkbEvent.consumes])]
  refine usedOnce_bind_iff (by simp) rfl ?_
  rintro ⟨m1, _ | p⟩
  · -- Without an instance the packet is freed.
    exact iff_of_true (usedOnce_singleton rfl) ⟨_, rfl⟩
  rw [usedOnce_bind_of_spares (spares_count m1 skb), result_count]
  simp only [Except.ok.injEq, exists_eq_left']
  refine usedOnce_bind_iff (by simp) rfl ?_
  intro sk
  rw [usedOnce_bind_of_spares (spares_packetType skb)]
  have htype : skb.awdsGetPacketTypeTraced.result = .ok skb.awdsGetPacketType := rfl
  simp only [htype, Except.ok.injEq, exists_eq_left']
  split
  · exact rcvUnicast_usedOnce net calls _ p sk skb
  · exact passUp_pair_usedOnce calls sk skb _ _

end

/-! ### Where the handler comes to its end -/

/-- A failure is no value. -/
theorem not_returns_error {α : Type} {e : Oops} : ¬∃ r : α, (.error e : KResult α) = .ok r := by
  rintro ⟨r, hr⟩
  cases hr

section
variable {net : Net} {env : RcvEnv} {m m' : AwdsModule} {sk : SockPtr} {own : Bool}
  {skb : SkBuff} {t : UcDestTable}

/-- The packet is for this station, the module delivers such packets, the address of its frame
is in the table and not too old, and a device has this address. -/
structure GivenToDevice (net : Net) (now : Int) (m : AwdsModule) (sk : SockPtr) (own : Bool)
    (skb : SkBuff) : Prop where
  own : own = true
  config : m.configuration &&& awdsLocalConfig ≠ 0
  length : awdsHlen + ethAlen ≤ skb.len
  intact : (m.socks sk).table.freed = false
  fresh : InTime (m.socks sk).table now (frameMac skb)
  device : ∃ dev, net.devGetbyhwaddr (frameMac skb) = some dev

/-- The packet is for another station, the module forwards such packets, there is an entry for
its destination, and the TTL is not used up. -/
structure GivenToNextHop (m : AwdsModule) (own : Bool) (skb : SkBuff) : Prop where
  own : own = false
  config : m.configuration &&& awdsForwardConfig ≠ 0
  entry : ∃ e, m.awdsCheckRoutingLocked skb = .ok (some e)
  ttl : skb.data awdsTtlOffset ≠ 1

/-- The table has not lost its first entry, and a search for an address that is not in it does
not free this entry. -/
structure TableReturns (t : UcDestTable) (now : Int) (mac : List UInt8) : Prop where
  intact : t.freed = false
  head : (∀ e ∈ t.entries, e.mac ≠ mac) → UcDestTable.freesHead now mac t.entries = false

/-- The lookups of the unicast case in the two tables return. -/
structure TablesReturn (net : Net) (now : Int) (m : AwdsModule) (sk : SockPtr) (own : Bool)
    (skb : SkBuff) : Prop where
  unicast : own = true → m.configuration &&& awdsLocalConfig ≠ 0 →
    awdsHlen + ethAlen ≤ skb.len → TableReturns (m.socks sk).table now (frameMac skb)
  routing : ¬GivenToDevice net now m sk own skb → ∃ e?, m.awdsCheckRoutingLocked skb = .ok e?

/-- The search in the table comes to the end of the list exactly if no entry has the address. -/
theorem scan_rest_eq_nil {now : Int} {mac : List UInt8} {es : List UcDest} :
    (UcDestTable.scan now mac es).2 = [] ↔ ∀ e ∈ es, e.mac ≠ mac := by
  rw [← List.head?_eq_none_iff, scan_rest, List.find?_eq_none]
  simp

/-- The check of a packet with an address returns exactly for an intact table that does not lose its
first entry in this call. -/
theorem check_returns_iff (hlen : awdsHlen + ethAlen ≤ skb.len) :
    (∃ r, t.awdsCheckUnicastTable env skb = .ok r) ↔
      TableReturns t env.now (frameMac skb) := by
  unfold UcDestTable.awdsCheckUnicastTable
  rw [if_neg (Nat.not_lt.mpr hlen)]
  have hnil : (UcDestTable.scan env.now (frameMac skb) t.entries).2 = [] ↔ _ := scan_rest_eq_nil
  -- A freed first entry is read by the first comparison.
  split
  · rename_i hfreed
    exact iff_of_false (by simp) fun h => by simp [h.intact] at hfreed
  rename_i hintact
  have hintact : t.freed = false := by simpa using hintact
  unfold frameMac at hnil ⊢
  dsimp only
  -- The scan has found an entry of the address.
  split
  · rename_i front e es hscan
    rw [hscan] at hnil
    refine iff_of_true ?_ ⟨hintact, fun h => absurd (hnil.mpr h) (by simp)⟩
    split
    · exact ⟨_, rfl⟩
    · exact ⟨_, rfl⟩
  · -- It has not. Then the head must not be gone.
    rename_i front hscan
    rw [hscan] at hnil
    split
    · rename_i hhead
      exact iff_of_false (by simp) fun h => by simp [h.head (hnil.mp rfl)] at hhead
    · rename_i hhead
      refine iff_of_true ?_ ⟨hintact, fun _ => by simpa using hhead⟩
      split
      · exact ⟨_, rfl⟩
      · exact ⟨_, rfl⟩

/-- A packet that is given to a device leaves the handler, or the call fails and the buffer is used
once more. -/
theorem tryLocal_given (h : GivenToDevice net env.now m sk own skb) :
    ∃ m' frame, m.tryLocal net env sk own skb =
      if env.netifRxOk then .ok (m', some frame) else .error .useAfterFree := by
  obtain ⟨dev, hdev⟩ := h.device
  obtain ⟨t, ht⟩ := check_of_fresh h.length h.intact h.fresh
  unfold frameMac at hdev
  unfold tryLocal
  rw [h.own, if_pos (by simpa using h.config), ht]
  have hret : skb.awdsDoLocalRetransmitLocked net env = if env.netifRxOk then
      .ok (some (dev, skb.data.read awdsHlen (skb.len - awdsHlen)))
    else .error .useAfterFree := by
    cases hrx : env.netifRxOk with
    | true => simp [SkBuff.awdsDoLocalRetransmitLocked, hdev, hrx]
    | false => simp [SkBuff.awdsDoLocalRetransmitLocked, hdev, hrx]
  rw [except_bind_ok]
  simp only [Bool.not_true, Bool.false_eq_true, if_false]
  rw [hret]
  cases env.netifRxOk with
  | true => exact ⟨_, _, rfl⟩
  | false => exact ⟨m, (dev, []), rfl⟩

/-- A packet that is not given to a device stays with the handler. -/
theorem tryLocal_other (h : ¬GivenToDevice net env.now m sk own skb)
    (htable : own = true → m.configuration &&& awdsLocalConfig ≠ 0 →
      awdsHlen + ethAlen ≤ skb.len → TableReturns (m.socks sk).table env.now (frameMac skb)) :
    ∃ t, m.tryLocal net env sk own skb =
      .ok (m.setSock sk { m.socks sk with table := t }, none) := by
  unfold tryLocal
  -- The table is asked only for a packet of this station, with local delivery switched on.
  by_cases hown : (own && decide (m.configuration &&& awdsLocalConfig ≠ 0)) = true
  · rw [if_pos hown]
    obtain ⟨rfl, hconfig⟩ := by simpa using hown
    obtain ⟨⟨t, allowed⟩, ht⟩ : ∃ r, (m.socks sk).table.awdsCheckUnicastTable env skb = .ok r := by
      by_cases hlen : awdsHlen + ethAlen ≤ skb.len
      · exact (check_returns_iff hlen).mpr (htable rfl hconfig hlen)
      · exact ⟨_, if_pos (Nat.not_le.mp hlen)⟩
    rw [ht, except_bind_ok]
    cases allowed with
    | false => exact ⟨t, rfl⟩
    | true =>
      -- The table allows it, so no device has the address: otherwise the packet would be given to
      -- it.
      have hmissing : net.devGetbyhwaddr (frameMac skb) = none := by
        cases hdev : net.devGetbyhwaddr (frameMac skb) with
        | none => rfl
        | some dev =>
          exact absurd ⟨rfl, hconfig, check_length ht, check_intact ht, check_allowed ht, dev,
            hdev⟩ h
      unfold frameMac at hmissing
      refine ⟨t, ?_⟩
      simp [SkBuff.awdsDoLocalRetransmitLocked, hmissing]
  · rw [if_neg hown]
    refine ⟨(m.socks sk).table, ?_⟩
    simp [AwdsModule.setSock]

/-- A packet that is given to the next hop leaves the handler, or the call fails and the buffer is
used once more. -/
theorem tryForward_given (env : RcvEnv) (h : GivenToNextHop m own skb) :
    ∃ m' sent, m.tryForward env own skb =
      if env.sendOk then .ok (m', some sent) else .error .useAfterFree := by
  obtain ⟨e, he⟩ := h.entry
  have httl : skb.data awdsTtlOffset - 1 ≠ 0 := fun hc => h.ttl ((sub_one_eq_zero _).mp hc)
  unfold tryForward
  rw [he, h.own, except_bind_ok]
  dsimp only
  rw [if_pos (by simpa using h.config)]
  simp only [SkBuff.awdsDoRetransmitLocked, httl, if_false]
  cases hsend : env.sendOk with
  | true => exact ⟨_, _, rfl⟩
  | false => exact ⟨m, skb, rfl⟩

/-- A packet that is not given to a next hop stays with the handler. -/
theorem tryForward_other (env : RcvEnv) (h : ¬GivenToNextHop m own skb)
    (hroute : ∃ e?, m.awdsCheckRoutingLocked skb = .ok e?) :
    m.tryForward env own skb = .ok (m, none) := by
  obtain ⟨_ | e, he⟩ := hroute
  · unfold tryForward
    rw [he]
    rfl
  unfold tryForward
  rw [he, except_bind_ok]
  dsimp only
  split
  · rename_i hown
    obtain ⟨rfl, hconfig⟩ : own = false ∧ m.configuration &&& awdsForwardConfig ≠ 0 := by
      simpa using hown
    have httl : skb.data awdsTtlOffset = 1 := by
      by_contra httl
      exact h ⟨rfl, hconfig, ⟨e, he⟩, httl⟩
    simp [SkBuff.awdsDoRetransmitLocked, httl]
  · rfl

/-- The two calls of the kernel that consume the buffer succeed. -/
structure CallsSucceed (net : Net) (env : RcvEnv) (m : AwdsModule) (sk : SockPtr) (own : Bool)
    (skb : SkBuff) : Prop where
  device : GivenToDevice net env.now m sk own skb → env.netifRxOk = true
  nextHop : GivenToNextHop m own skb → env.sendOk = true

/-- A table that does not return stops the local delivery. -/
theorem tryLocal_error (net : Net) (env : RcvEnv) (hown : own = true)
    (hconfig : m.configuration &&& awdsLocalConfig ≠ 0) (hlen : awdsHlen + ethAlen ≤ skb.len)
    (htable : ¬TableReturns (m.socks sk).table env.now (frameMac skb)) :
    ∃ e, m.tryLocal net env sk own skb = .error e := by
  unfold tryLocal
  rw [hown, if_pos (by simpa using hconfig)]
  cases hcheck : (m.socks sk).table.awdsCheckUnicastTable env skb with
  | error e => exact ⟨e, rfl⟩
  | ok r => exact absurd ((check_returns_iff hlen).mp ⟨r, hcheck⟩) htable

/-- A lookup that does not return stops the forwarding. -/
theorem tryForward_error (env : RcvEnv) (own : Bool)
    (hroute : ¬∃ e?, m.awdsCheckRoutingLocked skb = .ok e?) :
    ∃ e, m.tryForward env own skb = .error e := by
  unfold tryForward
  cases hsearch : m.awdsCheckRoutingLocked skb with
  | error e => exact ⟨e, rfl⟩
  | ok e? => exact absurd ⟨e?, hsearch⟩ hroute

/-- The unicast case behind the lookup of the interface. -/
theorem deliver_returns_iff :
    (∃ r, (do
      let (m, frame?) ← m.tryLocal net env sk own skb
      match frame? with
      | some (dev, frame) => .ok (m, .delivered dev frame)
      | none => do
        let (m, sent?) ← m.tryForward env own skb
        match sent? with
        | some sent => .ok (m, .retransmitted sent)
        | none => .ok (m, passUp env sk skb) : KResult (AwdsModule × Verdict)) = .ok r) ↔
      TablesReturn net env.now m sk own skb ∧ CallsSucceed net env m sk own skb := by
  by_cases hgiven : GivenToDevice net env.now m sk own skb
  · -- The packet does not get to the other ways.
    have htables : TablesReturn net env.now m sk own skb := by
      refine ⟨fun _ _ hlen => (check_returns_iff hlen).mp ?_, fun h => absurd hgiven h⟩
      obtain ⟨t, ht⟩ := check_of_fresh hlen hgiven.intact hgiven.fresh
      exact ⟨_, ht⟩
    have hcalls : CallsSucceed net env m sk own skb ↔ env.netifRxOk = true :=
      ⟨fun h => h.device hgiven, fun h => ⟨fun _ => h, fun hnext => by
        cases hgiven.own.symm.trans hnext.own⟩⟩
    obtain ⟨m', frame, hrun⟩ := tryLocal_given hgiven
    rw [hrun, hcalls]
    cases env.netifRxOk with
    | true => exact iff_of_true ⟨_, rfl⟩ ⟨htables, rfl⟩
    | false => exact iff_of_false not_returns_error (by simp)
  by_cases htable : own = true → m.configuration &&& awdsLocalConfig ≠ 0 →
      awdsHlen + ethAlen ≤ skb.len → TableReturns (m.socks sk).table env.now (frameMac skb)
  · obtain ⟨t, hlocal⟩ := tryLocal_other hgiven htable
    rw [hlocal, except_bind_ok]
    dsimp only
    -- The search and the next hop do not depend on the table of the socket.
    have hsearch : (m.setSock sk { m.socks sk with table := t }).awdsCheckRoutingLocked skb =
      m.awdsCheckRoutingLocked skb := by
      apply checkRouting_congr
      · rfl
      · rfl
    have hsame : GivenToNextHop (m.setSock sk { m.socks sk with table := t }) own skb ↔
        GivenToNextHop m own skb :=
      ⟨fun h => ⟨h.own, h.config, hsearch ▸ h.entry, h.ttl⟩,
        fun h => ⟨h.own, h.config, hsearch.symm ▸ h.entry, h.ttl⟩⟩
    by_cases hroute : ∃ e?, m.awdsCheckRoutingLocked skb = .ok e?
    · have htables : TablesReturn net env.now m sk own skb := ⟨htable, fun _ => hroute⟩
      -- Only a packet that is given to a next hop depends on the device.
      by_cases hnext : GivenToNextHop m own skb
      · have hcalls : CallsSucceed net env m sk own skb ↔ env.sendOk = true :=
          ⟨fun h => h.nextHop hnext, fun h => ⟨fun hc => absurd hc hgiven, fun _ => h⟩⟩
        obtain ⟨m', sent, hforward⟩ := tryForward_given env (hsame.mpr hnext)
        rw [hforward, hcalls]
        cases env.sendOk with
        | true => exact iff_of_true ⟨_, rfl⟩ ⟨htables, rfl⟩
        | false => exact iff_of_false not_returns_error (by simp)
      · rw [tryForward_other env (fun h => hnext (hsame.mp h)) (hsearch.symm ▸ hroute)]
        exact iff_of_true ⟨_, rfl⟩ ⟨htables, fun h => absurd h hgiven, fun h => absurd h hnext⟩
    · obtain ⟨e, hforward⟩ := tryForward_error env own (hsearch.symm ▸ hroute)
      rw [hforward]
      exact iff_of_false not_returns_error fun h => hroute (h.1.routing hgiven)
  · obtain ⟨hown, hconfig, hlen, hreturn⟩ : own = true ∧
        m.configuration &&& awdsLocalConfig ≠ 0 ∧ awdsHlen + ethAlen ≤ skb.len ∧
          ¬TableReturns (m.socks sk).table env.now (frameMac skb) := by
      by_contra hc
      exact htable fun h1 h2 h3 => by_contra fun h4 => hc ⟨h1, h2, h3, h4⟩
    obtain ⟨e, hlocal⟩ := tryLocal_error net env hown hconfig hlen hreturn
    rw [hlocal]
    exact iff_of_false not_returns_error fun h => htable h.1.unicast

variable {p : InstancePtr}

/-- Whether the packet is for the station with the interface `f`. -/
def isOwn (f : AwdsInterface) (skb : SkBuff) : Bool :=
  decide (memcmp f.addr.saAddr (skb.data.read awdsDestOffset ethAlen) = .eq)

/-- What the unicast case of the handler needs to come to its end. -/
def UnicastReturns (net : Net) (env : RcvEnv) (m : AwdsModule) (p : InstancePtr) (sk : SockPtr)
    (skb : SkBuff) : Prop :=
  ∃ ptr f, m.awdsFindInterface p skb.dev = .ok (m, some ptr) ∧ m.iface ptr = .ok f ∧
    TablesReturn net env.now m sk (isOwn f skb) skb ∧ CallsSucceed net env m sk (isOwn f skb) skb

/-- The unicast case returns exactly if its lookups return and its two calls succeed. The proof goes
through the handler from the front: the interface, the local delivery, the forwarding. -/
theorem rcvUnicast_returns_iff :
    (∃ r, m.rcvUnicast net env p sk skb = .ok r) ↔ UnicastReturns net env m p sk skb := by
  unfold AwdsModule.rcvUnicast UnicastReturns
  cases hfind : m.awdsFindInterface p skb.dev with
  | error e => exact iff_of_false not_returns_error (by simp)
  | ok r =>
    obtain ⟨m1, ptr?⟩ := r
    obtain rfl := findInterface_eq hfind
    rw [except_bind_ok]
    cases ptr? with
    | none => exact iff_of_false not_returns_error (by simp)
    | some ptr =>
      dsimp only
      cases hface : m1.iface ptr with
      | error e => exact iff_of_false not_returns_error (by simp [hface])
      | ok f =>
        rw [except_bind_ok]
        refine deliver_returns_iff.trans ⟨fun h => ⟨ptr, f, rfl, hface, h⟩, ?_⟩
        rintro ⟨ptr', f', hptr, hf, h⟩
        cases hptr
        cases hface.symm.trans hf
        exact h

/-- The counters have no part in the local delivery. -/
theorem GivenToDevice.withStats (h : GivenToDevice net env.now m sk own skb)
    (s : AwdsPacketStatistic) : GivenToDevice net env.now (withStats s m) sk own skb :=
  ⟨h.own, h.config, h.length, h.intact, h.fresh, h.device⟩

/-- The counters have no part in the lookup of a route. -/
theorem checkRouting_withStats (s : AwdsPacketStatistic) (m : AwdsModule) (skb : SkBuff) :
    (withStats s m).awdsCheckRoutingLocked skb = m.awdsCheckRoutingLocked skb := by
  apply checkRouting_congr
  · rfl
  · rfl

/-- The counters do not matter. -/
theorem UnicastReturns.withStats (h : UnicastReturns net env m p sk skb)
    (s : AwdsPacketStatistic) : UnicastReturns net env (withStats s m) p sk skb := by
  obtain ⟨ptr, f, hfind, hface, htables, hcalls⟩ := h
  have hsearch := checkRouting_withStats s m skb
  refine ⟨ptr, f, findInterface_stats hfind s, hface, ⟨htables.unicast, fun h => ?_⟩,
    fun h => ?_, fun h => ?_⟩
  · rw [hsearch]
    exact htables.routing fun hgiven => h (hgiven.withStats s)
  · exact hcalls.device (h.withStats m.awdsStats)
  · exact hcalls.nextHop ⟨h.own, h.config, hsearch ▸ h.entry, h.ttl⟩

/-- A unicast packet for the socket `sk`. `own` says whether its destination is this station. -/
def UnicastFor (m : AwdsModule) (skb : SkBuff) (sk : SockPtr) (own : Bool) : Prop :=
  ∃ p ptr f, m.awdsFindInstanceByDevLocked skb.dev = .ok (m, some p) ∧ m.sockOf p = .ok sk ∧
    skb.awdsGetPacketType = packetUnicast.toNat ∧
    m.awdsFindInterface p skb.dev = .ok (m, some ptr) ∧ m.iface ptr = .ok f ∧ own = isOwn f skb

/-- The lookups of the handler return: that of the instance, of its socket, of the interface
for a unicast packet, and those in the two tables. -/
structure LookupsReturn (net : Net) (now : Int) (m : AwdsModule) (skb : SkBuff) : Prop where
  byDev : ∃ p?, m.awdsFindInstanceByDevLocked skb.dev = .ok (m, p?)
  sock : ∀ p, m.awdsFindInstanceByDevLocked skb.dev = .ok (m, some p) → ∃ sk, m.sockOf p = .ok sk
  interface : ∀ p, m.awdsFindInstanceByDevLocked skb.dev = .ok (m, some p) →
    skb.awdsGetPacketType = packetUnicast.toNat →
    ∃ ptr f, m.awdsFindInterface p skb.dev = .ok (m, some ptr) ∧ m.iface ptr = .ok f
  tables : ∀ sk own, UnicastFor m skb sk own → TablesReturn net now m sk own skb

/-- With the instance and the socket of the device at hand, a unicast packet is one that the
interface can be asked about. -/
theorem unicastFor_iff {sk' : SockPtr}
    (hfind : m.awdsFindInstanceByDevLocked skb.dev = .ok (m, some p)) (hsk : m.sockOf p = .ok sk) :
    UnicastFor m skb sk' own ↔ sk' = sk ∧ skb.awdsGetPacketType = packetUnicast.toNat ∧
      ∃ ptr f, m.awdsFindInterface p skb.dev = .ok (m, some ptr) ∧ m.iface ptr = .ok f ∧
        own = isOwn f skb := by
  constructor
  · rintro ⟨p', ptr, f, hp, hsk', htype, hptr, hface, hown⟩
    cases hfind.symm.trans hp
    cases hsk.symm.trans hsk'
    exact ⟨rfl, htype, ptr, f, hptr, hface, hown⟩
  · rintro ⟨rfl, htype, ptr, f, hptr, hface, hown⟩
    exact ⟨p, ptr, f, hfind, hsk, htype, hptr, hface, hown⟩

/-- The handler behind the lookup of the instance. -/
theorem packetRcv_found_iff (hproto : skb.protocol = ethPAwds)
    (hfind : m.awdsFindInstanceByDevLocked skb.dev = .ok (m, some p)) :
    (∃ r, m.awdsPacketRcv net env skb = .ok r) ↔ ∃ sk, m.sockOf p = .ok sk ∧
      (skb.awdsGetPacketType = packetUnicast.toNat → UnicastReturns net env m p sk skb) := by
  obtain ⟨s, hs⟩ := counted_eq m skb
  have hsock : (withStats s m).sockOf p = m.sockOf p := rfl
  unfold awdsPacketRcv
  rw [if_neg (not_not.mpr hproto), hfind, except_bind_ok]
  dsimp only
  rw [hs]
  change (∃ r, ((withStats s m).sockOf p >>= _) = _) ↔ _
  rw [hsock]
  cases m.sockOf p with
  | error e => exact iff_of_false not_returns_error (by simp)
  | ok sk =>
    simp only [except_bind_ok, Except.ok.injEq, exists_eq_left']
    split
    · rename_i htype
      rw [rcvUnicast_returns_iff]
      exact ⟨fun h _ => h.withStats m.awdsStats, fun h => (h htype).withStats s⟩
    · rename_i htype
      exact iff_of_true ⟨_, rfl⟩ fun h => absurd h htype

/-- The handler comes to its end if the lookups return and the calls succeed. -/
theorem packetRcv_returns_iff (hproto : skb.protocol = ethPAwds) :
    (∃ r, m.awdsPacketRcv net env skb = .ok r) ↔ LookupsReturn net env.now m skb ∧
      ∀ sk own, UnicastFor m skb sk own → CallsSucceed net env m sk own skb := by
  cases hfind : m.awdsFindInstanceByDevLocked skb.dev with
  | error e =>
    refine iff_of_false ?_ fun h => ?_
    · rintro ⟨r, hr⟩
      simp [awdsPacketRcv, hproto, hfind] at hr
    · obtain ⟨p?, hp⟩ := h.1.byDev
      cases hfind.symm.trans hp
  | ok r =>
    obtain ⟨m1, p?⟩ := r
    obtain rfl := findInstanceByDev_eq hfind
    -- The lookup of the instance has one result.
    have hsome : ∀ p, m1.awdsFindInstanceByDevLocked skb.dev = .ok (m1, some p) → p? = some p := by
      intro p hp
      cases hfind.symm.trans hp
      rfl
    cases p? with
    | none =>
      have hfor : ∀ sk own, ¬UnicastFor m1 skb sk own := by
        rintro sk own ⟨p, _, _, hp, -⟩
        cases hsome p hp
      refine iff_of_true ?_ ⟨⟨⟨none, hfind⟩, ?_, ?_, fun sk own h => absurd h (hfor sk own)⟩,
        fun sk own h => absurd h (hfor sk own)⟩
      · simp [awdsPacketRcv, hproto, hfind]
      · exact fun p hp => by cases hsome p hp
      · exact fun p hp => by cases hsome p hp
    | some p =>
      -- The socket, the interface and the tables are those of this instance.
      rw [packetRcv_found_iff hproto hfind]
      constructor
      · rintro ⟨sk, hsk, h⟩
        have hfor : ∀ sk' own, UnicastFor m1 skb sk' own →
            TablesReturn net env.now m1 sk' own skb ∧ CallsSucceed net env m1 sk' own skb := by
          intro sk' own hfor
          obtain ⟨rfl, htype, ptr, f, hptr, hface, rfl⟩ := (unicastFor_iff hfind hsk).mp hfor
          obtain ⟨ptr', f', hptr', hface', hreturn⟩ := h htype
          cases hptr.symm.trans hptr'
          cases hface.symm.trans hface'
          exact hreturn
        refine ⟨⟨⟨_, hfind⟩, ?_, ?_, fun sk' own h => (hfor sk' own h).1⟩,
          fun sk' own h => (hfor sk' own h).2⟩
        · intro p' hp
          cases hsome p' hp
          exact ⟨sk, hsk⟩
        · intro p' hp htype
          cases hsome p' hp
          obtain ⟨ptr, f, hptr, hface, -⟩ := h htype
          exact ⟨ptr, f, hptr, hface⟩
      · rintro ⟨hlookups, hcalls⟩
        obtain ⟨sk, hsk⟩ := hlookups.sock p hfind
        refine ⟨sk, hsk, fun htype => ?_⟩
        obtain ⟨ptr, f, hptr, hface⟩ := hlookups.interface p hfind htype
        have hfor : UnicastFor m1 skb sk (isOwn f skb) :=
          ⟨p, ptr, f, hfind, hsk, htype, hptr, hface, rfl⟩
        exact ⟨ptr, f, hptr, hface, hlookups.tables _ _ hfor, hcalls _ _ hfor⟩

end

/-! ### The buffer -/

section
variable {net : Net} {calls : RcvCalls} {m : AwdsModule} {skb : SkBuff}

/-- Take any state of the module and any results of the calls. The handler hands the buffer over
exactly once, as the last thing it does with it, if and only if the packet is one of the AWDS
protocol, the lookups return, no device drops a packet that is given to it, and no packet is
forwarded in vain. -/
theorem disposes_once_iff : UsedOnce Consumes (m.awdsPacketRcvTraced net calls skb).events ↔
    skb.protocol = ethPAwds ∧ LookupsReturn net calls.now m skb ∧
      ∀ sk own, UnicastFor m skb sk own →
        (GivenToDevice net calls.now m sk own skb → calls.netifRxNi = 0) ∧
        (GivenToNextHop m own skb → calls.sendErr = 0) := by
  by_cases hproto : skb.protocol = ethPAwds
  · rw [packetRcv_usedOnce net calls m hproto, packetRcv_returns_iff hproto]
    have hcalls : ∀ sk own, CallsSucceed net calls.env m sk own skb ↔
        (GivenToDevice net calls.now m sk own skb → calls.netifRxNi = 0) ∧
          (GivenToNextHop m own skb → calls.sendErr = 0) := fun sk own =>
      ⟨fun h => ⟨fun hd => of_decide_eq_true (h.device hd),
        fun hn => of_decide_eq_true (h.nextHop hn)⟩,
      fun h => ⟨fun hd => decide_eq_true (h.1 hd), fun hn => decide_eq_true (h.2 hn)⟩⟩
    simp only [hcalls, hproto, true_and]
    exact Iff.rfl
  · -- The handler leaves a packet of another protocol alone.
    refine iff_of_false (not_usedOnce_of_spares ?_) fun h => hproto h.1
    simp [awdsPacketRcvTraced, hproto, SkbEvent.consumes]

/-- A frame for a local device that `netif_rx_ni` drops goes into the queue of the socket, and so
does a packet for a next hop that `awds_send` has freed, as the device is down. -/
theorem used_twice :
    ¬UsedOnce Consumes (deliveringModule.awdsPacketRcvTraced localDevice
      { now := 5, netifRxNi := 1 } { skbOf (arrivingPacket 0x62) with dev := 10 }).events ∧
    ¬UsedOnce Consumes ((relayModule true).awdsPacketRcvTraced twoDevices
      { now := 0, devUp := false } { skbOf (transitPacket 1) with dev := 10 }).events := by
  have hlocal : (deliveringModule.awdsPacketRcvTraced localDevice
      { now := 5, netifRxNi := 1 } { skbOf (arrivingPacket 0x62) with dev := 10 }).events.filter
        (fun e => decide (Consumes e)) = [.injected, .queued] := by decide +kernel
  have hforward : ((relayModule true).awdsPacketRcvTraced twoDevices
      { now := 0, devUp := false } { skbOf (transitPacket 1) with dev := 10 }).events.filter
        (fun e => decide (Consumes e)) = [.freed, .queued] := by decide +kernel
  constructor
  · intro h
    have hone := h.countP_eq_one
    rw [List.countP_eq_length_filter, hlocal] at hone
    cases hone
  · intro h
    have hone := h.countP_eq_one
    rw [List.countP_eq_length_filter, hforward] at hone
    cases hone

end

end Awds.Proofs
