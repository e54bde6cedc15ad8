import Awds.Routing.Network
import Awds.Proofs.Routing.Flood

/-!
# `Awds.Proofs.Routing.Flooding`: a flood reaches a station once

The network of `Awds.Routing.Network` floods every packet without coordination. Two things
bound what becomes of a flood `f`. A station that has handed `f` to its handler holds it in
its history, and it holds it for as long as fewer than 128 other floods come in
(`NodeOk.remembered`). And every copy of `f` carries a TTL that, together with the number of
stations that have passed it on, is the TTL it was sent with (`AirOk`).

The source is the exception of the first fact. Its packets come back when they have long
left its history, and `recv_packet` drops them because they are its own.

`nodeOk_record` is the step lemma for the station that runs `recv_flood`, and
`airOk_transmitted` the one for what it transmits. `floodOk_step` puts them together for a
step of the network, and `floodOk_run` carries them over a run.
-/

set_option autoImplicit false

namespace Awds.Proofs

open Awds.Lib Awds.AwdsRouting Awds.Network

/-! ### The invariant -/

section Invariant

/-- What holds of a station, whose identifier is `me`. -/
structure NodeOk (f : FloodHistory.Entry) (me : NodeId) (n : NetNode) : Prop where
  handed_le : n.handed ≤ 1
  sent_le : n.sent ≤ n.handed
  remembered : n.handed = 1 → me ≠ f.id → ∃ m, n.others = some m ∧
    ∀ r, n.routing = some r → m < 128 → r.floodHistory.HoldsWithin f m

/-- What holds of the transmitted packets. -/
def AirOk (f : FloodHistory.Entry) (k : Nat) (air : Set Copy) : Prop :=
  ∀ c ∈ air, c.IsOf f → Flood.getTTL c.packet + c.hops = k ∧ 1 ≤ Flood.getTTL c.packet

end Invariant

/-! ### One call of `recv_flood` -/

section Call

variable {f : FloodHistory.Entry} {me : NodeId} {n : NetNode} {r : AwdsRouting}
  {p : BasePacket} {out : Result (AwdsRouting × Option BasePacket)}

/-- What a call of `recv_flood` for the packet `p` can be: it keeps its word about the
history, and it sends nothing on that was not admitted. -/
structure CallOk (r : AwdsRouting) (p : BasePacket)
    (out : Result (AwdsRouting × Option BasePacket)) : Prop where
  history : ∀ r' sent, out = .ok (r', sent) →
    r'.floodHistory = (r.admitFlood p).1.floodHistory
  admitted : NetNode.sends out = true → (r.admitFlood p).2 = true
  fields : ∀ r' q, out = .ok (r', some q) →
    q.flood = p.flood ∧ Flood.getTTL q + 1 = Flood.getTTL p ∧ 1 ≤ Flood.getTTL q

/-- A packet that is sent on was admitted. -/
theorem recvFlood_admitted {host : Host} {clock : Clock} {r' : AwdsRouting} {q : BasePacket}
    (h : r.recvFlood host clock p = .ok (r', some q)) : (r.admitFlood p).2 = true := by
  have hset : (r.admitFlood (p.setType .flood)).2 = (r.admitFlood p).2 := by
    unfold admitFlood
    simp only [(SameFields.setType p .flood).getSrc, (SameFields.setType p .flood).getSeq,
      (SameFields.setType p .flood).getTTL]
  rw [← hset]
  unfold recvFlood at h
  simp only at h
  split at h
  · cases h
  · rename_i hadmit
    simpa using hadmit

theorem callOk_recvFlood (host : Host) (clock : Clock) (r : AwdsRouting) (p : BasePacket) :
    CallOk r p (r.recvFlood host clock p) where
  history _ _ h := recvFlood_floodHistory h
  admitted h := by
    unfold NetNode.sends at h
    split at h
    · rename_i r' q hout
      exact recvFlood_admitted hout
    · cases h
  fields r' q h := by
    obtain ⟨hsrc, hseq, httl, hpos⟩ := recvFlood_sent_fields h
    exact ⟨by rw [BasePacket.flood, BasePacket.flood, hsrc, hseq], httl, hpos⟩

/-- The history behind `admitFlood`, in terms of the flood that the packet belongs to. -/
theorem admitFlood_history (r : AwdsRouting) (p : BasePacket) :
    (r.admitFlood p).1.floodHistory =
      if r.floodHistory.contains p.flood.id p.flood.seq then r.floodHistory
      else r.floodHistory.insert p.flood.id p.flood.seq :=
  admitFlood_floodHistory r p

/-- A packet that is admitted is new. -/
theorem not_contains_of_admitted (h : (r.admitFlood p).2 = true) :
    r.floodHistory.contains p.flood.id p.flood.seq = false := by
  unfold admitFlood at h
  simp only at h
  split at h
  · cases h
  · rename_i hnew
    exact Bool.eq_false_iff.mpr hnew

/-- Another flood pushes `f` back by at most one place. -/
theorem holdsWithin_of_other (hout : CallOk r p out) {m : Nat}
    (hholds : m < 128 → r.floodHistory.HoldsWithin f m) {m' : Nat}
    (hm : m' = if r.floodHistory.contains p.flood.id p.flood.seq then m else m + 1)
    {r' : AwdsRouting} {sent : Option BasePacket} (hr : out = .ok (r', sent)) (hlt : m' < 128) :
    r'.floodHistory.HoldsWithin f m' := by
  rw [hout.history r' sent hr, admitFlood_history]
  subst hm
  split at hlt
  · rename_i hseen
    rw [if_pos hseen, if_pos hseen]
    exact hholds hlt
  · rename_i hnew
    rw [if_neg hnew, if_neg hnew]
    exact (hholds (by omega)).insert _ hlt

/-- The step lemma of a station: a call of `recv_flood`, for a packet that is not its own,
or for one of another flood, or for the first copy of `f`. -/
theorem nodeOk_record (hn : NodeOk f me n) (hr : n.routing = some r) (hout : CallOk r p out)
    (hwithin : n.WithinHistory f p)
    (harrive : p.flood = f → me ≠ f.id ∨ n.handed = 0) :
    NodeOk f me (n.record f r p out) := by
  by_cases hp : p.flood = f
  · -- A copy of `f` is admitted once: later ones are found in the history.
    have hfirst : (r.admitFlood p).2 = true → n.handed = 0 := by
      intro hadmit
      rcases harrive hp with hme | h0
      · by_contra hne
        have hle := hn.handed_le
        obtain ⟨m, hothers, hholds⟩ := hn.remembered (by omega) hme
        have hmem := (hholds r hr (hwithin hp m hothers)).mem
        have hseen := not_contains_of_admitted hadmit
        rw [hp, (contains_iff _ f).mpr hmem] at hseen
        cases hseen
      · exact h0
    refine ⟨?_, ?_, ?_⟩
    · simp only [NetNode.record, hp, true_and]
      have hle := hn.handed_le
      split
      · rename_i hadmit
        have := hfirst hadmit
        omega
      · exact hle
    · simp only [NetNode.record, hp, true_and]
      have hle := hn.sent_le
      split
      · rename_i hsent
        rw [if_pos (hout.admitted hsent)]
        omega
      · split <;> omega
    · intro hhanded hme
      refine ⟨n.others.getD 0, by simp [NetNode.record, hp], ?_⟩
      intro r' hr' hlt
      -- The station still runs, so the call has returned.
      cases hcall : out with
      | error e => simp [NetNode.record, hcall] at hr'
      | ok res =>
        obtain ⟨r1, sent⟩ := res
        simp only [NetNode.record, hcall, Option.some.injEq] at hr'
        subst hr'
        rw [hout.history _ _ hcall, admitFlood_history, hp]
        split
        · rename_i hseen
          -- A copy that was seen changes nothing, so `f` was handed on before.
          have hnot : ¬(r.admitFlood p).2 = true := fun hadmit => by
            have := not_contains_of_admitted hadmit
            rw [hp, hseen] at this
            cases this
          simp only [NetNode.record, hp, true_and, if_neg hnot] at hhanded
          obtain ⟨m, hothers, hholds⟩ := hn.remembered hhanded hme
          simp only [hothers, Option.getD_some] at hlt ⊢
          exact hholds r hr hlt
        · exact Ring.holdsWithin_insert_self _ _ _
  · -- A packet of another flood leaves the counts of `f` alone.
    refine ⟨?_, ?_, ?_⟩
    · simpa [NetNode.record, hp] using hn.handed_le
    · simpa [NetNode.record, hp] using hn.sent_le
    · intro hhanded hme
      simp only [NetNode.record, hp, false_and, if_false] at hhanded
      obtain ⟨m, hothers, hholds⟩ := hn.remembered hhanded hme
      refine ⟨if r.floodHistory.contains p.flood.id p.flood.seq then m else m + 1, ?_, ?_⟩
      · simp only [NetNode.record, hp, if_false, hothers, Option.map_some]
        split <;> rfl
      · intro r' hr' hlt
        cases hcall : out with
        | error e => simp [NetNode.record, hcall] at hr'
        | ok res =>
          obtain ⟨r1, sent⟩ := res
          simp only [NetNode.record, hcall, Option.some.injEq] at hr'
          subst hr'
          exact holdsWithin_of_other hout (hholds r hr) rfl hcall hlt

/-- The step lemma of the transmitted packets: a call for a packet whose TTL is what `k`
leaves of it. -/
theorem airOk_transmitted {k hops : Nat} (hout : CallOk r p out)
    (hp : p.flood = f → Flood.getTTL p + hops = k + 1) :
    AirOk f k (transmitted out hops) := by
  rintro c ⟨r', q, hq, rfl⟩ ⟨_, hflood⟩
  obtain ⟨hsame, httl, hpos⟩ := hout.fields r' q hq
  have := hp (by rw [← hsame]; exact hflood)
  exact ⟨by simp only; omega, hpos⟩

end Call

/-! ### Runs -/

section Run

variable {ι : Type} [DecidableEq ι] {hosts : ι → Host} {f : FloodHistory.Entry} {k : Nat}
  {N N' : Network ι}

/-- The invariant of a network. -/
structure FloodOk (hosts : ι → Host) (f : FloodHistory.Entry) (k : Nat) (N : Network ι) :
    Prop where
  nodes : ∀ i, NodeOk f (hosts i).myNodeId (N.nodes i)
  air : AirOk f k N.air

/-- A call of `recv_flood` at one station keeps the invariant if it does so for the station
and for what it transmits. -/
theorem FloodOk.call (h : FloodOk hosts f k N) {i : ι} {r : AwdsRouting} {p : BasePacket}
    {out : Result (AwdsRouting × Option BasePacket)} {hops : Nat}
    (hr : (N.nodes i).routing = some r) (hout : CallOk r p out)
    (hwithin : (N.nodes i).WithinHistory f p)
    (harrive : p.flood = f → (hosts i).myNodeId ≠ f.id ∨ (N.nodes i).handed = 0)
    (httl : p.flood = f → Flood.getTTL p + hops = k + 1) :
    FloodOk hosts f k (N.call f i r p out hops) := by
  refine ⟨fun j => ?_, ?_⟩
  · by_cases hj : j = i
    · subst hj
      simp only [Network.call, Function.update_self]
      exact nodeOk_record (h.nodes j) hr hout hwithin harrive
    · simp only [Network.call, Function.update_of_ne hj]
      exact h.nodes j
  · rintro c (hc | hc)
    · exact h.air c hc
    · exact airOk_transmitted hout httl c hc

/-- Another state of one station keeps the invariant if it has the same history. -/
theorem FloodOk.withRouting (h : FloodOk hosts f k N) (i : ι) {r' : Option AwdsRouting}
    (hr' : ∀ r1, r' = some r1 → ∃ r, (N.nodes i).routing = some r ∧
      r1.floodHistory = r.floodHistory) : FloodOk hosts f k (N.withRouting i r') := by
  refine ⟨fun j => ?_, h.air⟩
  by_cases hj : j = i
  · subst hj
    simp only [Network.withRouting, Function.update_self]
    refine ⟨(h.nodes j).handed_le, (h.nodes j).sent_le, fun hhanded hme => ?_⟩
    obtain ⟨m, hothers, hholds⟩ := (h.nodes j).remembered hhanded hme
    refine ⟨m, hothers, fun r1 hr1 hlt => ?_⟩
    obtain ⟨r, hr, hsame⟩ := hr' r1 hr1
    rw [hsame]
    exact hholds r hr hlt
  · simp only [Network.withRouting, Function.update_of_ne hj]
    exact h.nodes j

/-- The packet that `sendBroadcast` passes on belongs to the same flood. -/
theorem raised_flood (p : BasePacket) : (raised p).flood = p.flood := by
  -- The TTL is one of the fields, so the fields in front of it are compared by hand.
  have hread : ∀ {off n : Nat}, 1 ≤ off → off + n ≤ 9 →
      (raised p).buffer.read off n = p.buffer.read off n := by
    intro off n hlo hhi
    refine Buffer.read_congr fun i h1 h2 => ?_
    have hset := SameFields.setType p .flood i (by omega) (by omega)
    rw [← hset]
    exact Buffer.write_of_lt _ _ (Nat.lt_of_lt_of_le h2 (Nat.le_trans hhi (by decide)))
  rw [BasePacket.flood, BasePacket.flood, SrcPacket.getSrc, SrcPacket.getSrc, SrcPacket.getSeq,
    SrcPacket.getSeq, hread (by decide) (by decide), hread (by decide) (by decide)]

/-- `incTTL` adds one to a TTL that fits. -/
theorem raised_ttl {p : BasePacket} (h : Flood.getTTL p ≤ 254) :
    Flood.getTTL (raised p) = Flood.getTTL p + 1 := by
  have hbyte : ∀ b : UInt8, b.toNat ≤ 254 → (b + 1).toNat = b.toNat + 1 := by decide +kernel
  rw [← (SameFields.setType p .flood).getTTL] at h ⊢
  have hwrite : (raised p).buffer Flood.offsetTTL
      = (p.setType .flood).buffer Flood.offsetTTL + 1 :=
    Buffer.write_at (p.setType .flood).buffer
      [(p.setType .flood).buffer Flood.offsetTTL + 1] Flood.offsetTTL 0 Nat.one_pos
  rw [Flood.getTTL, hwrite]
  exact hbyte _ h

/-- A packet that `recv_packet` gives to `recv_flood` is a flood packet of another station. -/
theorem recvPacket_flood {host : Host} {r : AwdsRouting} {p : BasePacket}
    (h : r.recvPacket host p = some .flood) :
    p.getType = .flood ∧ host.myNodeId ≠ p.flood.id := by
  unfold recvPacket at h
  split at h
  · rename_i hpass
    exact ⟨Option.some.inj h, fun heq => hpass.2 heq.symm⟩
  · cases h

/-- One step of the network. -/
theorem floodOk_step (h : FloodOk hosts f k N) (hstep : Step hosts f N N') :
    FloodOk hosts f k N' := by
  cases hstep with
  -- A copy is received: the one case in which the counts may grow.
  | deliver i clock r c hair hr hflood hwithin =>
    obtain ⟨htype, hme⟩ := recvPacket_flood hflood
    refine h.call hr (callOk_recvFlood _ _ _ _) hwithin (fun hp => .inl ?_) fun hp => ?_
    · rw [← hp]
      exact hme
    · have httl := (h.air c hair ⟨htype, hp⟩).1
      omega
  -- Another flood is sent here.
  | broadcast i clock r p hr hother =>
    have hne : (raised p).flood ≠ f := by
      rw [raised_flood]
      exact hother
    exact h.call hr (callOk_recvFlood _ _ _ _) (fun hp => absurd hp hne)
      (fun hp => absurd hp hne) fun hp => absurd hp hne
  -- Another packet is put on the air.
  | inject c hother =>
    refine ⟨h.nodes, ?_⟩
    rintro c' (rfl | hc')
    · exact fun hof => absurd hof hother
    · exact h.air c' hc'
  -- The history stays, so nothing becomes new again.
  | elsewhere i r r' hr hhistory =>
    refine h.withRouting i fun r1 hr1 => ⟨r, hr, ?_⟩
    cases hr1
    exact hhistory
  -- A station that does not run sends nothing.
  | stop i => exact h.withRouting i fun r1 hr1 => by cases hr1

omit [DecidableEq ι] in
/-- A network in which nothing of the flood has happened satisfies the invariant. -/
theorem Before.floodOk (h : N.Before f) : FloodOk hosts f k N := by
  refine ⟨fun i => ⟨by rw [h.handed i]; omega, by rw [h.sent i]; omega, fun h1 => ?_⟩,
    fun c hc hof => absurd hof (h.air c hc)⟩
  rw [h.handed i] at h1
  omega

/-- Every network of a run, from the packet of the source on. -/
theorem floodOk_run {o : ι} {p : BasePacket} (httl : Flood.getTTL p = k) (hk : k ≤ 254)
    (hrun : Run hosts f o p N) : FloodOk hosts f k N := by
  induction hrun with
  | start N clock r before hr =>
    refine (Before.floodOk before).call hr (callOk_recvFlood _ _ _ _) (fun _ m hm => ?_)
      (fun _ => .inr (before.handed o)) fun _ => ?_
    · rw [before.others o] at hm
      cases hm
    · rw [raised_ttl (by omega), httl]
  | step N N' run hstep ih => exact floodOk_step ih hstep

/-- In every run of the network a flood that was originated once, with a TTL `k` from 1 to
254, is handed to the handler at most once and transmitted at most once by every station. A
copy that was passed on `h` times carries the TTL `k - h`, which is at least 1, so it has
crossed at most `k` links. -/
theorem flood_at_most_once {o : ι} {p : BasePacket} (hk : 1 ≤ Flood.getTTL p ∧
    Flood.getTTL p ≤ 254) (hrun : Run hosts p.flood o p N) :
    (∀ i, (N.nodes i).handed ≤ 1 ∧ (N.nodes i).sent ≤ 1) ∧
    ∀ c ∈ N.air, c.IsOf p.flood →
      Flood.getTTL c.packet = Flood.getTTL p - c.hops ∧ 1 ≤ Flood.getTTL c.packet ∧
        c.hops + 1 ≤ Flood.getTTL p := by
  have h := floodOk_run rfl hk.2 hrun
  constructor
  · intro i
    have hhanded := (h.nodes i).handed_le
    have hsent := (h.nodes i).sent_le
    exact ⟨hhanded, by omega⟩
  · intro c hc hof
    obtain ⟨httl, hpos⟩ := h.air c hc hof
    exact ⟨by omega, hpos, by omega⟩

end Run

/-! ### A concrete run -/

/-- The two stations before the command. -/
def pairNetwork : Network Bool where
  nodes b := { routing := some (pairRouting b) }
  air := ∅

/-- The station 1 sends the command and the station 2 gets it, locks its topology and sends
it on. -/
theorem flood_at_most_once_pair :
    ∃ N, Run pairHosts lockPacket.flood false lockPacket N ∧
      (N.nodes true).handed = 1 ∧ (N.nodes true).sent = 1 ∧
      (∀ i, (N.nodes i).handed ≤ 1 ∧ (N.nodes i).sent ≤ 1) ∧
      ∀ c ∈ N.air, c.IsOf lockPacket.flood →
        Flood.getTTL c.packet = Flood.getTTL lockPacket - c.hops ∧ 1 ≤ Flood.getTTL c.packet ∧
          c.hops + 1 ≤ Flood.getTTL lockPacket := by
  obtain ⟨⟨r, sent⟩, hsend, htest⟩ := exists_of_test
    ((pairRouting false).sendBroadcast (pairHosts false) ⟨0, 0⟩ lockPacket)
    (fun out => out.2.any fun q =>
      decide ((pairRouting true).recvPacket (pairHosts true) q = some .flood) &&
        decide (q.flood = lockPacket.flood) && ((pairRouting true).admitFlood q).2 &&
        NetNode.sends ((pairRouting true).recvFlood (pairHosts true) ⟨0, 0⟩ q))
    (by decide +kernel)
  -- The sender has put a copy on the air.
  cases sent with
  | none => cases htest
  | some q =>
    simp only [Option.any_some, Bool.and_eq_true, decide_eq_true_eq] at htest
    obtain ⟨⟨⟨hrecv, hflood⟩, hadmit⟩, hsends⟩ := htest
    -- The run starts with that copy and delivers it to the other station.
    have hstart : Run pairHosts lockPacket.flood false lockPacket _ :=
      .start pairNetwork ⟨0, 0⟩ (pairRouting false)
        ⟨fun _ hc => hc.elim, fun _ => rfl, fun _ => rfl, fun _ => rfl⟩ rfl
    have hrun := hstart.step _ _ (.deliver _ true ⟨0, 0⟩ (pairRouting true) ⟨q, 0⟩
      (.inr ⟨r, q, hsend, rfl⟩) rfl hrecv fun _ m hm => by cases hm)
    refine ⟨_, hrun, ?_, ?_, flood_at_most_once (by decide +kernel) hrun⟩
    · simp [Network.call, NetNode.record, pairNetwork, hflood, hadmit]
    · simp [Network.call, NetNode.record, pairNetwork, hflood, hsends]

end Awds.Proofs
