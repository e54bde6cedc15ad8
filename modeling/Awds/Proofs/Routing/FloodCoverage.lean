import Awds.Routing.Coverage
import Awds.Proofs.Routing.BeaconLists
import Awds.Proofs.Routing.BeaconPeriod
import Awds.Proofs.Routing.Flooding
import Awds.Proofs.Routing.Relay
import Mathlib.Data.Fintype.Card
import Mathlib.Logic.Relation

/-!
# `Awds.Proofs.Routing.FloodCoverage`: a flood reaches every station

`flood_at_most_once` bounds a flood from above. `flood_covers` is the bound from below: if nothing
is lost, every station that is linked to the source, over any number of stations, hands the flood
to its handler.

Two things could stop a flood early. A station stays silent if the last hop lists it among the
neighbours that need not repeat a packet. `tryRemoveFromMpr` puts no neighbour there, so no
station that runs this program silences another one (`silencedBy_of_fromStation`). And the TTL
could run out on a long way round before a short way is tried. But a copy that was passed on `h`
times has `h + 1` senders (`CoverOk.hops`), so a TTL of the number of stations less one is enough.

`CoverOk.call` is the step lemma for a station that runs `recv_flood`. Behind such a call the
station has sent a copy on, or every other station has already done so.
-/

set_option autoImplicit false

namespace Awds.Proofs

open Awds.Lib Awds.AwdsRouting Awds.Network

/-! ### No station is silenced -/

section Silence

variable {host : Host} {r : AwdsRouting} {p : BasePacket}

/-- A neighbour behind `calcMpr`. -/
def flagged (nd : NodeDescr) : NodeDescr :=
  { nd with lastBeacon := nd.lastBeacon.map fun lb => lb.setType .beacon, mpr := true }

/-- The loop flags every neighbour on its own. -/
theorem calcMprLoop_eq {nds nds' : List NodeDescr} (h : calcMprLoop nds = .ok nds') :
    nds' = nds.map flagged := by
  induction nds generalizing nds' with
  | nil =>
    cases h
    rfl
  | cons nd nds ih =>
    rw [calcMprLoop] at h
    split at h
    · cases h
    · rename_i lb hlb
      obtain ⟨rest, hrest, h⟩ := bind_eq_ok.mp h
      cases h
      simp [ih hrest, flagged, hlb]

/-- `calcMpr` flags the neighbours and keeps them otherwise. -/
theorem calcMpr_neighbors {r r' : AwdsRouting} (h : r.calcMpr = .ok r') :
    r'.neighbors = r.neighbors.map flagged := by
  obtain ⟨nds, hloop, h⟩ := bind_eq_ok.mp h
  cases h
  exact calcMprLoop_eq hloop

/-- `calcMpr` flags every neighbour. -/
theorem calcMpr_mpr {r r' : AwdsRouting} (h : r.calcMpr = .ok r') :
    ∀ nd ∈ r'.neighbors, nd.mpr = true := by
  intro nd' hnd'
  rw [calcMpr_neighbors h] at hnd'
  obtain ⟨nd, -, rfl⟩ := List.mem_map.mp hnd'
  rfl

/-- Behind the period a beacon has the counts and the list that `setNeigh` has written. -/
theorem unsignedBeacon_counts {b b' : BeaconRouting} {q : BasePacket}
    (h : b.unsignedBeacon host = .ok (b', q)) :
    ∃ r q', b.toAwdsRouting.calcMpr = .ok r ∧
      ∀ i, Beacon.offsetNumNoMpr ≤ i → q.buffer i = (Beacon.setNeigh r q').buffer i := by
  obtain ⟨r, hmpr, h⟩ := bind_eq_ok.mp h
  cases h
  refine ⟨r, SrcPacket.setSrc (BasePacket.new.setType .beacon) host.myNodeId, hmpr,
    fun i hi => ?_⟩
  refine (Buffer.write_of_ge _ _ ?_).trans (Buffer.write_of_ge _ _ ?_)
  · rwa [length_toBigEndian]
  · rw [length_toBigEndian]
    exact Nat.le_trans (by decide) hi

/-- No neighbour is listed as one that need not repeat a packet. -/
theorem getNumNoMpr_makeBeacon {b b' : BeaconRouting} {q : BasePacket}
    (h : b.makeBeacon host = .ok (b', q)) : q.buffer Beacon.offsetNumNoMpr = 0 := by
  obtain ⟨⟨b₁, q₁⟩, hunsigned, h⟩ := bind_eq_ok.mp h
  have hsize := (unsignedBeacon_spec hunsigned).1
  obtain ⟨r, q', hmpr, hcounts⟩ := unsignedBeacon_counts hunsigned
  cases h
  have hoff : Beacon.offsetNumNoMpr < Beacon.offsetLNeigh := by decide
  refine (signBeacon_buffer b₁.toAwdsRouting q₁ (hoff.trans_le hsize)).trans ?_
  have hnone : goodOf false r.neighbors = [] := by
    refine List.filter_eq_nil_iff.mpr fun nd hnd => ?_
    simp [calcMpr_mpr hmpr nd hnd]
  rw [hcounts _ le_rfl, setNeigh_buffer, hnone]
  exact Buffer.write_at _ [_] _ 0 Nat.one_pos

/-- The search among no neighbours finds none. -/
theorem hasNoMpr_of_fromStation (h : Beacon.FromStation p) (id : NodeId) :
    Beacon.hasNoMpr p id = .ok false := by
  obtain ⟨host, b, b', q, hmake, hsame⟩ := h
  have hzero : Beacon.getNumNoMpr p = 0 := by
    rw [Beacon.getNumNoMpr, hsame _ (by decide), getNumNoMpr_makeBeacon hmake]
    rfl
  unfold Beacon.hasNoMpr Beacon.hasNeighBinsearch
  rw [hzero, Int.add_zero, Beacon.binsearch, if_pos rfl]

/-- A station whose neighbours run this program always repeats a packet. -/
theorem silencedBy_of_fromStation
    (h : ∀ nd ∈ r.neighbors, ∀ p, nd.lastBeacon = some p → Beacon.FromStation p)
    (lastHop : NodeId) : r.silencedBy host lastHop ≠ .ok true := by
  intro hsilent
  unfold silencedBy at hsilent
  simp only at hsilent
  split at hsilent
  · cases hsilent
  split at hsilent
  · cases hsilent
  rename_i nd hnd
  split at hsilent
  · cases hsilent
  rename_i beacon hbeacon
  rw [hasNoMpr_of_fromStation (h nd (List.mem_of_getElem? hnd) beacon hbeacon)] at hsilent
  cases hsilent

end Silence

/-! ### One call of `recv_flood` -/

section Call

variable {host : Host} {clock : Clock} {r r' : AwdsRouting} {p q : BasePacket}

/-- The handlers keep the first byte of a packet that goes on. -/
theorem handleFlood_first (h : r.handleFlood host clock p = .ok (r', q, true)) :
    q.buffer 0 = p.buffer 0 := by
  unfold handleFlood at h
  split at h
  · -- The topology is read after its signature was checked.
    obtain ⟨⟨r₁, p₁, valid⟩, hsig, h⟩ := bind_eq_ok.mp h
    obtain ⟨hp, -⟩ := checkSignature_keeps hsig
    simp only at h
    split at h
    · cases h
    · rename_i hvalid
      obtain ⟨t, -, h⟩ := bind_eq_ok.mp h
      cases h
      rw [hp (by simpa using hvalid)]
  -- A mobile beacon is not changed.
  split at h
  · cases h
    rfl
  · -- A frame is decrypted behind the header, so the first byte stays.
    obtain ⟨⟨r₁, p₁⟩, hbc, h⟩ := bind_eq_ok.mp h
    cases h
    unfold recvBroadcast at hbc
    simp only at hbc
    split at hbc
    · cases hbc
      rfl
    split at hbc
    · cases hbc
      rfl
    · obtain ⟨len, -, hbc⟩ := bind_eq_ok.mp hbc
      obtain ⟨⟨cu, buf, ok⟩, hdec, hbc⟩ := bind_eq_ok.mp hbc
      have hfirst : buf 0 = p.buffer 0 := decryptDupDetect_of_lt hdec (by decide)
      simp only at hbc
      split at hbc
      · cases hbc
        exact hfirst
      · cases hbc
        exact hfirst
  · -- The lock does not change the packet.
    obtain ⟨r₁, -, h⟩ := bind_eq_ok.mp h
    cases h
    rfl

/-- A packet that is sent on is a flood packet and names this station as its last hop. -/
theorem recvFlood_sent_hop (h : r.recvFlood host clock p = .ok (r', some q)) :
    q.getType = .flood ∧ Flood.getLastHop q = host.myNodeId := by
  obtain ⟨-, p', hhandle, hrelay⟩ := recvFlood_sent h
  obtain ⟨rfl, -⟩ := relayFlood_sent hrelay
  refine ⟨?_, relayed_lastHop p' host.myNodeId⟩
  have hfirst : (Flood.decrTTL (Flood.setLastHop p' host.myNodeId)).buffer 0
      = (p.setType .flood).buffer 0 := by
    rw [relayed_buffer_of_ne p' _ (.inl (by decide)), handleFlood_first hhandle]
  rw [← getType_setType p .flood]
  exact getType_congr (by rw [← hfirst]; rfl)

/-- A packet that is admitted, accepted and not at the end of its TTL is sent on, if the call
returns and the neighbours run this program. -/
theorem recvFlood_sends_on {sent : Option BasePacket} (htype : p.getType = .flood)
    (h : r.recvFlood host clock p = .ok (r', sent)) (hgoes : (r.admitFlood p).2 = true)
    (hbeacons : ∀ nd ∈ r'.neighbors, ∀ p, nd.lastBeacon = some p → Beacon.FromStation p)
    (haccepts : ∀ r₁ q, (r.admitFlood p).1.handleFlood host clock p ≠ .ok (r₁, q, false))
    (httl : 2 ≤ Flood.getTTL p) : ∃ q, sent = some q := by
  unfold recvFlood at h
  simp only [setType_flood htype, hgoes, Bool.not_true, Bool.false_eq_true, if_false] at h
  obtain ⟨⟨r₁, p₁, valid⟩, hhandle, h⟩ := bind_eq_ok.mp h
  -- A refused flood is excluded, so the flood is handed on.
  cases valid with
  | false => exact absurd hhandle (haccepts r₁ p₁)
  | true =>
    simp only [Bool.not_true, Bool.false_eq_true, if_false] at h
    obtain ⟨out, hrelay, h⟩ := bind_eq_ok.mp h
    cases h
    obtain ⟨silent, hsilent, hrelay⟩ := bind_eq_ok.mp hrelay
    -- No neighbour silences the station, as its beacons come from stations.
    cases silent with
    | true => exact absurd hsilent (silencedBy_of_fromStation hbeacons _)
    | false =>
      have hsame := (handleFlood_keeps hhandle).1 rfl
      rw [← hsame.getTTL] at httl
      -- Two hops were left, so one still is after the count has gone down.
      have hbyte : p₁.buffer Flood.offsetTTL ≠ 0 := by
        intro h0
        rw [Flood.getTTL, h0] at httl
        exact absurd httl (by decide)
      have hpred := toNat_pred_add_one hbyte
      rw [← relayed_ttl p₁ host.myNodeId] at hpred
      have hleft : Flood.getTTL (Flood.decrTTL (Flood.setLastHop p₁ host.myNodeId)) ≠ 0 := by
        unfold Flood.getTTL at httl ⊢
        omega
      simp only [Bool.false_eq_true, if_false, if_neg hleft] at hrelay
      cases hrelay
      exact ⟨_, rfl⟩

end Call

/-! ### The invariant -/

section Invariant

variable {ι : Type} [Fintype ι] [DecidableEq ι] {hosts : ι → Host} {f : FloodHistory.Entry}
  {k : Nat} {N N' : Network ι} {D : Set (ι × Copy)}

/-- The stations that have transmitted the flood. -/
def senders (N : Network ι) : Finset ι := Finset.univ.filter fun i => (N.nodes i).sent = 1

omit [DecidableEq ι] in
/-- The senders are the stations that have sent the flood. -/
theorem mem_senders {i : ι} : i ∈ senders N ↔ (N.nodes i).sent = 1 := by
  simp [senders]

/-- A copy of the flood that the station `i` has sent. -/
def SentBy (hosts : ι → Host) (f : FloodHistory.Entry) (N : Network ι) (i : ι) : Prop :=
  ∃ c ∈ N.air, c.IsOf f ∧ Flood.getLastHop c.packet = (hosts i).myNodeId

/-- What holds of every network of a healthy run, besides `FloodOk`. -/
structure CoverOk (hosts : ι → Host) (f : FloodHistory.Entry) (k : Nat) (N : Network ι) :
    Prop where
  flood : FloodOk hosts f k N
  known : ∀ i r, (N.nodes i).routing = some r → r.floodHistory.contains f.id f.seq = true →
    (N.nodes i).handed = 1
  hops : ∀ c ∈ N.air, c.IsOf f → c.hops + 1 ≤ (senders N).card
  spread : ∀ i, (N.nodes i).handed = 1 → SentBy hosts f N i ∨ ∀ j, (N.nodes j).handed = 1

/-- A call of `recv_flood` at the station `i`, with the packet and the number of stations that
its result will have passed. For a copy of `f` the TTL and that number make up what the flood
began with. -/
structure FloodCall (hosts : ι → Host) (f : FloodHistory.Entry) (k : Nat) (N : Network ι) (i : ι)
    (r : AwdsRouting) (p : BasePacket) (clock : Clock) (hops : Nat) : Prop where
  running : (N.nodes i).routing = some r
  within : (N.nodes i).WithinHistory f p
  arrive : p.flood = f → (hosts i).myNodeId ≠ f.id ∨ (N.nodes i).handed = 0
  ttl : p.flood = f → Flood.getTTL p + hops = k + 1 ∧ 1 ≤ Flood.getTTL p
  hops : p.flood = f → hops ≤ (senders N).card
  sends : p.flood = f → (r.admitFlood p).2 = true → 2 ≤ Flood.getTTL p →
    NetNode.sends (r.recvFlood (hosts i) clock p) = true

variable {i : ι} {r : AwdsRouting} {p : BasePacket} {clock : Clock} {hops : Nat}

omit [Fintype ι] in
/-- The counts of the station that runs `recv_flood`, and of the others. -/
theorem call_handed (N : Network ι) (out : Result (AwdsRouting × Option BasePacket)) (j : ι) :
    ((N.call f i r p out hops).nodes j).handed
      = (N.nodes j).handed + if j = i ∧ p.flood = f ∧ (r.admitFlood p).2 = true then 1 else 0 := by
  by_cases hj : j = i
  · subst hj
    simp only [Network.call, Function.update_self, NetNode.record, true_and]
    split
    · rfl
    · rfl
  · simp [Network.call, hj]

omit [Fintype ι] in
/-- A call adds one to the copies that its station has sent, if it sends the flood. -/
theorem call_sent (N : Network ι) (out : Result (AwdsRouting × Option BasePacket)) (j : ι) :
    ((N.call f i r p out hops).nodes j).sent
      = (N.nodes j).sent + if j = i ∧ p.flood = f ∧ NetNode.sends out = true then 1 else 0 := by
  by_cases hj : j = i
  · subst hj
    simp only [Network.call, Function.update_self, NetNode.record, true_and]
    split
    · rfl
    · rfl
  · simp [Network.call, hj]

omit [Fintype ι] in
/-- A copy that was sent stays on the air. -/
theorem SentBy.call {j : ι} (h : SentBy hosts f N j)
    (out : Result (AwdsRouting × Option BasePacket)) :
    SentBy hosts f (N.call f i r p out hops) j := by
  obtain ⟨c, hc, hof⟩ := h
  exact ⟨c, .inl hc, hof⟩

omit [Fintype ι] [DecidableEq ι] in
/-- A packet of another flood does not put `f` into the history. -/
theorem contains_of_other {out : Result (AwdsRouting × Option BasePacket)} (hout : CallOk r p out)
    (hne : p.flood ≠ f) {r' : AwdsRouting} {sent : Option BasePacket} (hr : out = .ok (r', sent))
    (h : r'.floodHistory.contains f.id f.seq = true) :
    r.floodHistory.contains f.id f.seq = true := by
  rw [hout.history r' sent hr, admitFlood_history] at h
  split at h
  · exact h
  · have hmem := (contains_iff _ f).mp h
    rw [FloodHistory.insert, Ring.recent_insert] at hmem
    rcases List.mem_cons.mp (List.mem_of_mem_take hmem) with heq | hmem
    · exact absurd heq.symm hne
    · exact (contains_iff _ f).mpr hmem

/-- The step lemma: behind a call of `recv_flood` for a copy of the flood the station has handed
the flood on, and it has sent a copy or all stations have got one. -/
theorem CoverOk.call (h : CoverOk hosts f k N) (hcall : FloodCall hosts f k N i r p clock hops)
    (hcard : Fintype.card ι ≤ k + 1) :
    CoverOk hosts f k (N.call f i r p (r.recvFlood (hosts i) clock p) hops) ∧
      (p.flood = f →
        ((N.call f i r p (r.recvFlood (hosts i) clock p) hops).nodes i).handed = 1) := by
  have hout := callOk_recvFlood (hosts i) clock r p
  have hflood : FloodOk hosts f k (N.call f i r p (r.recvFlood (hosts i) clock p) hops) :=
    h.flood.call hcall.running hout hcall.within hcall.arrive fun hp => (hcall.ttl hp).1
  have hmono : ∀ j, (N.nodes j).handed = 1 →
      ((N.call f i r p (r.recvFlood (hosts i) clock p) hops).nodes j).handed = 1 := by
    intro j hj
    have hle := (hflood.nodes j).handed_le
    rw [call_handed] at hle ⊢
    omega
  -- a station that sends a copy of the flood has not sent one before
  have hnew : p.flood = f → (r.admitFlood p).2 = true → (N.nodes i).handed = 0 ∧
      i ∉ senders N := by
    intro hp hgoes
    have hle := (hflood.nodes i).handed_le
    rw [call_handed, if_pos ⟨rfl, hp, hgoes⟩] at hle
    have hsent := (h.flood.nodes i).sent_le
    refine ⟨by omega, fun hmem => ?_⟩
    rw [mem_senders] at hmem
    omega
  have hsub : senders N ⊆ senders (N.call f i r p (r.recvFlood (hosts i) clock p) hops) := by
    intro j hj
    rw [mem_senders] at hj ⊢
    have hle := (hflood.nodes j).sent_le
    have hle' := (hflood.nodes j).handed_le
    rw [call_sent] at hle ⊢
    omega
  have hhops : ∀ c ∈ (N.call f i r p (r.recvFlood (hosts i) clock p) hops).air, c.IsOf f →
      c.hops + 1 ≤ (senders (N.call f i r p (r.recvFlood (hosts i) clock p) hops)).card := by
    rintro c (hc | ⟨r', q, hq, rfl⟩) hof
    · exact (h.hops c hc hof).trans (Finset.card_le_card hsub)
    · have hp : p.flood = f := (hout.fields r' q hq).1.symm.trans hof.2
      have hsends : NetNode.sends (r.recvFlood (hosts i) clock p) = true := by rw [hq]; rfl
      have hmem : i ∈ senders (N.call f i r p (r.recvFlood (hosts i) clock p) hops) := by
        have hzero : (N.nodes i).sent = 0 := by
          have := (h.flood.nodes i).sent_le
          have := (hnew hp (hout.admitted hsends)).1
          omega
        rw [mem_senders, call_sent, if_pos ⟨rfl, hp, hsends⟩, hzero]
      have hcard := Finset.card_le_card (Finset.insert_subset hmem hsub)
      rw [Finset.card_insert_of_notMem (hnew hp (hout.admitted hsends)).2] at hcard
      have := hcall.hops hp
      simp only
      omega
  by_cases hp : p.flood = f
  · -- the history and the TTL let a packet go on that is new
    have hhanded : ((N.call f i r p (r.recvFlood (hosts i) clock p) hops).nodes i).handed = 1 := by
      cases hgoes : (r.admitFlood p).2 with
      | true => rw [call_handed, if_pos ⟨rfl, hp, hgoes⟩, (hnew hp hgoes).1]
      | false =>
        refine hmono i (h.known i r hcall.running ?_)
        have httl := (hcall.ttl hp).2
        unfold admitFlood at hgoes
        simp only at hgoes
        split at hgoes
        · rename_i hseen
          rw [← hp]
          exact hseen
        · rw [decide_eq_false_iff_not] at hgoes
          omega
    refine ⟨⟨hflood, fun j r' hr' hcont => ?_, hhops, fun j hj => ?_⟩, fun _ => hhanded⟩
    · by_cases hji : j = i
      · rw [hji]
        exact hhanded
      · refine hmono j (h.known j r' ?_ hcont)
        simpa [Network.call, hji] using hr'
    · -- what was spread before stays so, and this station sends or is the last one
      have hbefore : (N.nodes j).handed = 1 →
          SentBy hosts f (N.call f i r p (r.recvFlood (hosts i) clock p) hops) j ∨
            ∀ j', ((N.call f i r p (r.recvFlood (hosts i) clock p) hops).nodes j').handed = 1 := by
        intro hj
        rcases h.spread j hj with hsent | hall
        · exact .inl (hsent.call _)
        · exact .inr fun j' => hmono j' (hall j')
      by_cases hgoes : (r.admitFlood p).2 = true
      · by_cases hji : j = i
        · subst hji
          by_cases httl : 2 ≤ Flood.getTTL p
          · refine .inl ?_
            have hsends := hcall.sends hp hgoes httl
            unfold NetNode.sends at hsends
            split at hsends
            · rename_i r' q hrun
              obtain ⟨htype, hhop⟩ := recvFlood_sent_hop hrun
              refine ⟨⟨q, hops⟩, .inr ⟨r', q, hrun, rfl⟩, ⟨htype, ?_⟩, hhop⟩
              exact (hout.fields r' q hrun).1.trans hp
            · cases hsends
          · -- the TTL ends here, after all others have sent
            refine .inr fun j' => ?_
            have hlen := (hcall.ttl hp).1
            have hcount := hcall.hops hp
            have hnot := (hnew hp hgoes).2
            have hfull : insert j (senders N) = Finset.univ := by
              refine Finset.eq_univ_of_card _ (Nat.le_antisymm (Finset.card_le_univ _) ?_)
              rw [Finset.card_insert_of_notMem hnot]
              omega
            have hmem : j' ∈ insert j (senders N) := by
              rw [hfull]
              exact Finset.mem_univ j'
            rcases Finset.mem_insert.mp hmem with rfl | hmem
            · exact hhanded
            · refine hmono j' ?_
              have hle := (h.flood.nodes j').sent_le
              have hle' := (h.flood.nodes j').handed_le
              rw [mem_senders] at hmem
              omega
        · refine hbefore ?_
          rw [call_handed, if_neg fun h => hji h.1] at hj
          exact hj
      · refine hbefore ?_
        rw [call_handed, if_neg fun h => hgoes h.2.2] at hj
        exact hj
  · have hsame : ∀ j, ((N.call f i r p (r.recvFlood (hosts i) clock p) hops).nodes j).handed
        = (N.nodes j).handed := by
      intro j
      rw [call_handed, if_neg fun hj => hp hj.2.1, Nat.add_zero]
    refine ⟨⟨hflood, fun j r' hr' hcont => ?_, hhops, fun j hj => ?_⟩, fun hp' => absurd hp' hp⟩
    · rw [hsame]
      by_cases hji : j = i
      · subst hji
        cases hrun : r.recvFlood (hosts j) clock p with
        | error e => simp [Network.call, NetNode.record, hrun] at hr'
        | ok res =>
          simp only [Network.call, Function.update_self, NetNode.record, hrun,
            Option.some.injEq] at hr'
          subst hr'
          exact h.known j r hcall.running (contains_of_other hout hp hrun hcont)
      · refine h.known j r' ?_ hcont
        simpa [Network.call, hji] using hr'
    · rw [hsame] at hj
      rcases h.spread j hj with hsent | hall
      · exact .inl (hsent.call _)
      · exact .inr fun j' => by rw [hsame, hall]

/-! ### Runs -/

omit [DecidableEq ι] in
/-- Steps that are no calls of `recv_flood` for the flood keep the invariant: no counts change, no
history changes, and no copy of the flood comes in. -/
theorem CoverOk.quiet (h : CoverOk hosts f k N) (hflood : FloodOk hosts f k N')
    (hcounts : ∀ j, (N'.nodes j).handed = (N.nodes j).handed ∧
      (N'.nodes j).sent = (N.nodes j).sent)
    (hhistory : ∀ j r', (N'.nodes j).routing = some r' →
      ∃ r, (N.nodes j).routing = some r ∧ r'.floodHistory = r.floodHistory)
    (hair : ∀ c ∈ N'.air, c.IsOf f → c ∈ N.air) (hkept : N.air ⊆ N'.air) :
    CoverOk hosts f k N' where
  flood := hflood
  known j r' hr' hcont := by
    obtain ⟨r, hr, hsame⟩ := hhistory j r' hr'
    rw [(hcounts j).1]
    exact h.known j r hr (hsame ▸ hcont)
  hops c hc hof := by
    have hsame : senders N' = senders N := Finset.filter_congr fun j _ => by rw [(hcounts j).2]
    rw [hsame]
    exact h.hops c (hair c hc hof) hof
  spread j hj := by
    rw [(hcounts j).1] at hj
    rcases h.spread j hj with ⟨c, hc, hof⟩ | hall
    · exact .inl ⟨c, hkept hc, hof⟩
    · exact .inr fun j' => by rw [(hcounts j').1, hall]

/-- The call for a copy that was transmitted. -/
theorem CoverOk.floodCall (h : CoverOk hosts f k N) {c : Copy} (hair : c ∈ N.air)
    (hr : (N.nodes i).routing = some r)
    (hrecv : r.recvPacket (hosts i) c.packet = some .flood)
    (hwithin : (N.nodes i).WithinHistory f c.packet) (hnow : Healthy hosts f N)
    (hnext : Healthy hosts f
      (N.call f i r c.packet (r.recvFlood (hosts i) clock c.packet) (c.hops + 1))) :
    FloodCall hosts f k N i r c.packet clock (c.hops + 1) := by
  obtain ⟨htype, hme⟩ := recvPacket_flood hrecv
  have hof : c.packet.flood = f → c.IsOf f := fun hp => ⟨htype, hp⟩
  refine ⟨hr, hwithin, fun hp => .inl (hp ▸ hme), fun hp => ?_, fun hp => h.hops c hair (hof hp),
    fun hp hgoes httl => ?_⟩
  · -- The hops so far and the hops left add up to those at the start.
    have hcopy := h.flood.air c hair (hof hp)
    omega
  · -- the call has returned, because the station still runs
    obtain ⟨r', hr'⟩ := hnext.running i
    cases hrun : r.recvFlood (hosts i) clock c.packet with
    | error e => simp [Network.call, NetNode.record, hrun] at hr'
    | ok res =>
      obtain ⟨r₁, sent⟩ := res
      have hnode : ((N.call f i r c.packet (r.recvFlood (hosts i) clock c.packet)
          (c.hops + 1)).nodes i).routing = some r₁ := by
        simp [Network.call, NetNode.record, hrun]
      have hsend := recvFlood_sends_on htype hrun hgoes (hnext.beacons i r₁ hnode)
        (fun r₂ q => hnow.accepts i r hr (hp ▸ not_contains_of_admitted hgoes) c hair (hof hp)
          clock r₂ q) httl
      obtain ⟨q, rfl⟩ := hsend
      rfl

/-- One step of the network. -/
theorem CoverOk.step (h : CoverOk hosts f k N) (hcard : Fintype.card ι ≤ k + 1)
    (hnow : Healthy hosts f N) (hnext : Healthy hosts f N') (hstep : Step hosts f N N') :
    CoverOk hosts f k N' := by
  have hflood := floodOk_step h.flood hstep
  cases hstep with
  -- Only the delivery of a copy can be about this flood.
  | deliver i clock r c hair hr hrecv hwithin =>
    exact (h.call (h.floodCall hair hr hrecv hwithin hnow hnext) hcard).1
  -- A flood sent here is another one.
  | broadcast i clock r p hr hother =>
    have hne : (raised p).flood ≠ f := by
      rw [raised_flood]
      exact hother
    exact (h.call ⟨hr, fun hp => absurd hp hne, fun hp => absurd hp hne, fun hp => absurd hp hne,
      fun hp => absurd hp hne, fun hp => absurd hp hne⟩ hcard).1
  -- So is a packet put on the air from outside.
  | inject c hother =>
    refine h.quiet hflood (fun j => ⟨rfl, rfl⟩) (fun j r' hr' => ⟨r', hr', rfl⟩) ?_
      (Set.subset_insert c N.air)
    rintro c' (rfl | hc') hof
    · exact absurd hof hother
    · exact hc'
  -- The history of the station is kept by all else that it does.
  | elsewhere i r r' hr hhistory =>
    refine h.quiet hflood (fun j => ?_) (fun j r₁ hr₁ => ?_) (fun c hc _ => hc) le_rfl
    · by_cases hj : j = i
      · subst hj
        simp [Network.withRouting]
      · simp [Network.withRouting, hj]
    · by_cases hj : j = i
      · subst hj
        simp only [Network.withRouting, Function.update_self, Option.some.injEq] at hr₁
        exact ⟨r, hr, by rw [← hr₁, hhistory]⟩
      · simp only [Network.withRouting, Function.update_of_ne hj] at hr₁
        exact ⟨r₁, hr₁, rfl⟩
  -- A station that stops is not running, which a healthy network excludes.
  | stop i =>
    obtain ⟨r, hr⟩ := hnext.running i
    simp [Network.withRouting] at hr

omit [Fintype ι] in
/-- A healthy run stays healthy, and it is a run. -/
theorem HealthyRun.healthy {o : ι} (h : HealthyRun hosts f o p N D) : Healthy hosts f N := by
  cases h with
  | start _ _ _ _ _ _ _ _ _ hhealthy => exact hhealthy
  | deliver _ _ _ _ _ _ _ _ _ _ _ hhealthy => exact hhealthy
  | step _ _ _ _ _ hhealthy => exact hhealthy

omit [Fintype ι] in
/-- A flood that was handed on stays so. -/
theorem handed_step (hflood : FloodOk hosts f k N') (hstep : Step hosts f N N') {j : ι}
    (hj : (N.nodes j).handed = 1) : (N'.nodes j).handed = 1 := by
  have hle := (hflood.nodes j).handed_le
  have hcall : ∀ i r p hops (out : Result (AwdsRouting × Option BasePacket)),
      1 ≤ ((N.call f i r p out hops).nodes j).handed := by
    intro i r p hops out
    rw [call_handed]
    omega
  have hrouting : ∀ i r', ((N.withRouting i r').nodes j).handed = 1 := by
    intro i r'
    by_cases hji : j = i
    · subst hji
      simp [Network.withRouting, hj]
    · simp [Network.withRouting, hji, hj]
  cases hstep with
  | deliver => exact Nat.le_antisymm hle (hcall _ _ _ _ _)
  | broadcast => exact Nat.le_antisymm hle (hcall _ _ _ _ _)
  | inject => exact hj
  | elsewhere => exact hrouting _ _
  | stop => exact hrouting _ _

/-- Every network of a healthy run, and the stations that got a copy. -/
theorem coverOk_run {o : ι} (httl : Flood.getTTL p = k) (hk : k ≤ 254) (hp : p.flood = f)
    (hcard : Fintype.card ι ≤ k + 1) (hrun : HealthyRun hosts f o p N D) :
    CoverOk hosts f k N ∧ (N.nodes o).handed = 1 ∧
      ∀ j c, (j, c) ∈ D → c.IsOf f → (N.nodes j).handed = 1 := by
  induction hrun with
  | start N clock r r' q before fresh hr hsent hhealthy =>
    -- Before the flood starts no station has seen it.
    have hbefore : CoverOk hosts f k N := by
      refine ⟨Before.floodOk before, fun i s hs hcont => ?_, fun c hc hof => ?_, fun i hi => ?_⟩
      · rw [fresh i s hs] at hcont
        cases hcont
      · exact absurd hof (before.air c hc)
      · rw [before.handed i] at hi
        cases hi
    -- The source sends the packet with one hop more in it.
    have hraised := raised_ttl (p := p) (by omega)
    have hcall : FloodCall hosts f k N o r (raised p) clock 0 := by
      refine ⟨hr, fun _ m hm => ?_, fun _ => .inr (before.handed o), fun _ => ?_,
        fun _ => Nat.zero_le _, fun _ _ _ => ?_⟩
      · rw [before.others o] at hm
        cases hm
      · rw [hraised]
        omega
      · show NetNode.sends (r.sendBroadcast (hosts o) clock p) = true
        rw [hsent]
        rfl
    obtain ⟨hok, hhanded⟩ := hbefore.call hcall hcard
    exact ⟨hok, hhanded (by rw [raised_flood, hp]), fun j c hc => absurd hc (Set.notMem_empty _)⟩
  -- A delivery counts one hop more.
  | deliver N D i clock r c hrun hair hr hrecv hwithin hhealthy ih =>
    obtain ⟨hok, ho, hlog⟩ := ih
    have hstep : Step hosts f N _ := .deliver N i clock r c hair hr hrecv hwithin
    have hcall := hok.floodCall hair hr hrecv hwithin (HealthyRun.healthy hrun) hhealthy
    obtain ⟨hok', hhanded⟩ := hok.call hcall hcard
    refine ⟨hok', handed_step hok'.flood hstep ho, fun j c' hc' hof => ?_⟩
    rcases Set.mem_insert_iff.mp hc' with heq | hc'
    · cases heq
      exact hhanded hof.2
    · exact handed_step hok'.flood hstep (hlog j c' hc' hof)
  -- Any other step keeps what was handed.
  | step N N' D hrun hstep hhealthy ih =>
    obtain ⟨hok, ho, hlog⟩ := ih
    have hok' := hok.step hcard (HealthyRun.healthy hrun) hhealthy hstep
    exact ⟨hok', handed_step hok'.flood hstep ho,
      fun j c hc hof => handed_step hok'.flood hstep (hlog j c hc hof)⟩

/-- In a run in which no station fails and every transmitted copy is given to the stations that
have a link from its sender, every station that is reached over links from the source hands the
flood to its handler exactly once and transmits it at most once. The TTL of the flood has to be at
least the number of stations less one, and at most 254, because `sendBroadcast` adds one to it.
Floods that come between two copies of this one are fewer than the history has places
(`WithinHistory`). -/
theorem flood_covers {o : ι} (Link : ι → ι → Prop)
    (hid : Function.Injective fun i => (hosts i).myNodeId)
    (hsrc : SrcPacket.getSrc p = (hosts o).myNodeId) (hk : Flood.getTTL p ≤ 254)
    (hcard : Fintype.card ι ≤ Flood.getTTL p + 1)
    (hrun : HealthyRun hosts p.flood o p N D) (hcomplete : Complete hosts Link p.flood N D)
    {i : ι} (hi : Relation.ReflTransGen Link o i) :
    (N.nodes i).handed = 1 ∧ (N.nodes i).sent ≤ 1 := by
  obtain ⟨hok, ho, hlog⟩ := coverOk_run rfl hk rfl hcard hrun
  have hhanded : (N.nodes i).handed = 1 := by
    induction hi with
    | refl => exact ho
    | tail _ hlink ih =>
      rename_i j j' _
      by_cases hj : j' = o
      · rw [hj]
        exact ho
      rcases hok.spread j ih with ⟨c, hc, hof, hhop⟩ | hall
      · refine hlog j' c (hcomplete j j' c hlink hc hof hhop fun heq => hj (hid ?_)) hof
        exact heq.trans hsrc
      · exact hall j'
  have hle := (hok.flood.nodes i).sent_le
  exact ⟨hhanded, by omega⟩

end Invariant

/-! ### Two stations -/

/-- A flood is refused only if it is a topo packet whose signature is wrong. -/
theorem handleFlood_refused {host : Host} {clock : Clock} {r r' : AwdsRouting} {p q : BasePacket}
    (h : r.handleFlood host clock p = .ok (r', q, false)) :
    ∃ r₁ p₁, r.checkSignature host p = .ok (r₁, p₁, false) := by
  unfold handleFlood at h
  split at h
  · obtain ⟨⟨r₁, p₁, valid⟩, hcheck, h⟩ := bind_eq_ok.mp h
    cases valid with
    | false => exact ⟨r₁, p₁, hcheck⟩
    | true =>
      obtain ⟨t, -, h⟩ := bind_eq_ok.mp h
      cases h
  split at h
  · cases h
  · obtain ⟨_, _, h⟩ := bind_eq_ok.mp h
    cases h
  · obtain ⟨_, _, h⟩ := bind_eq_ok.mp h
    cases h

/-- Stations without neighbours are healthy if each of them has processed the flood or finds the
signatures of its copies right. -/
theorem healthy_of_alone {ι : Type} {hosts : ι → Host} {f : FloodHistory.Entry} {N : Network ι}
    (h : ∀ i, ∃ r, (N.nodes i).routing = some r ∧ r.neighbors = [] ∧
      (r.floodHistory.contains f.id f.seq = true ∨
        ∀ c ∈ N.air, ∃ x, (r.admitFlood c.packet).1.checkSignature (hosts i) c.packet = .ok x ∧
          x.2.2 = true)) : Healthy hosts f N where
  running i := by
    obtain ⟨r, hr, -⟩ := h i
    exact ⟨r, hr⟩
  -- Without neighbours there is no beacon that could silence the station.
  beacons i r hr nd hnd := by
    obtain ⟨r', hr', hnone, -⟩ := h i
    rw [hr] at hr'
    cases hr'
    rw [hnone] at hnd
    cases hnd
  -- Either the flood is in the history, or its signature holds.
  accepts i r hr hnew c hc _ clock r' q hrun := by
    obtain ⟨r₀, hr₀, -, hok⟩ := h i
    rw [hr] at hr₀
    cases hr₀
    -- What is in the history is not asked for.
    rcases hok with hseen | hsigned
    · rw [hnew] at hseen
      cases hseen
    · obtain ⟨x, hx, hvalid⟩ := hsigned c hc
      obtain ⟨r₁, p₁, hrefused⟩ := handleFlood_refused hrun
      rw [hx] at hrefused
      cases hrefused
      cases hvalid

/-- The two stations with one key. -/
def signingRouting (b : Bool) : AwdsRouting :=
  { pairRouting b with cryptoUnit := some ⟨List.replicate 16 7, List.replicate 16 9, 4, ∅⟩ }

/-- The station 1 builds and signs the topo packet `p` and transmits `q`. The station 2 finds the
signature right and transmits `q₂`. Behind this both stations have the flood in their histories. -/
theorem signed_floods : ∃ r₀ p r q r₂ q₂,
    (signingRouting false).makeTopo (pairHosts false) = .ok (r₀, p) ∧
    r₀.sendBroadcast (pairHosts false) ⟨0, 0⟩ p = .ok (r, some q) ∧
    (signingRouting true).recvFlood (pairHosts true) ⟨0, 0⟩ q = .ok (r₂, some q₂) ∧
    (signingRouting true).recvPacket (pairHosts true) q = some .flood ∧
    (∃ x, ((signingRouting true).admitFlood q).1.checkSignature (pairHosts true) q = .ok x ∧
      x.2.2 = true) ∧
    (Flood.getFloodType p = Flood.floodTypeTopo ∧ SrcPacket.getSrc p = (pairHosts false).myNodeId ∧
      Flood.getTTL p = 32) ∧
    (r₀.floodHistory.contains p.flood.id p.flood.seq = false ∧
      (signingRouting true).floodHistory.contains p.flood.id p.flood.seq = false) ∧
    (r.neighbors = [] ∧ r.floodHistory.contains p.flood.id p.flood.seq = true) ∧
    (r₂.neighbors = [] ∧ r₂.floodHistory.contains p.flood.id p.flood.seq = true) := by
  -- The whole exchange is computed: make the packet, send it, check it and pass it on.
  obtain ⟨⟨r₀, p⟩, hmake, htest⟩ := exists_of_test
    ((signingRouting false).makeTopo (pairHosts false))
    (fun x => decide (Flood.getFloodType x.2 = Flood.floodTypeTopo ∧
        SrcPacket.getSrc x.2 = (pairHosts false).myNodeId ∧ Flood.getTTL x.2 = 32) &&
      decide (x.1.floodHistory.contains x.2.flood.id x.2.flood.seq = false ∧
        (signingRouting true).floodHistory.contains x.2.flood.id x.2.flood.seq = false) &&
      returnsWith (x.1.sendBroadcast (pairHosts false) ⟨0, 0⟩ x.2) (fun y =>
        decide (y.1.neighbors.length = 0 ∧
          y.1.floodHistory.contains x.2.flood.id x.2.flood.seq = true) &&
        y.2.any fun q =>
          decide ((signingRouting true).recvPacket (pairHosts true) q = some .flood) &&
          returnsWith (((signingRouting true).admitFlood q).1.checkSignature (pairHosts true) q)
            (fun z => z.2.2) &&
          returnsWith ((signingRouting true).recvFlood (pairHosts true) ⟨0, 0⟩ q) fun z =>
            decide (z.1.neighbors.length = 0 ∧
              z.1.floodHistory.contains x.2.flood.id x.2.flood.seq = true) && z.2.isSome))
    (by decide +kernel)
  -- Its outcome is then read field by field.
  simp only [Bool.and_eq_true, decide_eq_true_eq] at htest
  obtain ⟨⟨hfields, hfresh⟩, hsends⟩ := htest
  obtain ⟨⟨r, sent⟩, hsend, htest⟩ := exists_of_returnsWith hsends
  simp only [Bool.and_eq_true, decide_eq_true_eq] at htest
  obtain ⟨⟨hnone, hseen⟩, hcopy⟩ := htest
  obtain ⟨q, rfl, hq⟩ := Option.any_eq_true _ _ |>.mp hcopy
  simp only [Bool.and_eq_true, decide_eq_true_eq] at hq
  obtain ⟨⟨hrecv, hvalid⟩, hrelays⟩ := hq
  obtain ⟨⟨r₂, sent₂⟩, hrelay, htest₂⟩ := exists_of_returnsWith hrelays
  simp only [Bool.and_eq_true, decide_eq_true_eq] at htest₂
  obtain ⟨⟨hnone₂, hseen₂⟩, hsome⟩ := htest₂
  obtain ⟨q₂, rfl⟩ := Option.isSome_iff_exists.mp hsome
  exact ⟨r₀, p, r, q, r₂, q₂, hmake, hsend, hrelay, hrecv, exists_of_returnsWith hvalid, hfields,
    hfresh, ⟨List.eq_nil_of_length_eq_zero hnone, hseen⟩,
    ⟨List.eq_nil_of_length_eq_zero hnone₂, hseen₂⟩⟩

/-- The topo packet of the station 1, which is signed, comes to the station 2 exactly once. -/
theorem flood_covers_pair :
    ∃ r₀ p N D, (signingRouting false).makeTopo (pairHosts false) = .ok (r₀, p) ∧
      Flood.getFloodType p = Flood.floodTypeTopo ∧
      HealthyRun pairHosts p.flood false p N D ∧
      (N.nodes true).handed = 1 ∧ (N.nodes true).sent ≤ 1 := by
  obtain ⟨r₀, p, r, q, r₂, q₂, hmake, hsend, hrelay, hrecv, hvalid, ⟨htopo, hsrc, httl⟩,
    ⟨hfresh₀, hfresh⟩, ⟨hnone, hseen⟩, ⟨hnone₂, hseen₂⟩⟩ := signed_floods
  -- the two stations, behind the making of the packet
  let N₀ : Network Bool :=
    ⟨fun b => { routing := some (if b then signingRouting true else r₀) }, ∅⟩
  let N₁ := N₀.call p.flood false r₀ (raised p) (r₀.sendBroadcast (pairHosts false) ⟨0, 0⟩ p) 0
  have hair₁ : ∀ c ∈ N₁.air, c.packet = q := by
    rintro c (hc | ⟨r', q', hq', rfl⟩)
    · exact hc.elim
    · rw [hsend] at hq'
      cases hq'
      rfl
  have hhealthy : Healthy pairHosts p.flood N₁ := by
    refine healthy_of_alone fun i => ?_
    cases i with
    | false =>
      exact ⟨r, by simp [N₁, Network.call, NetNode.record, hsend], hnone, .inl hseen⟩
    | true =>
      refine ⟨signingRouting true, by simp [N₁, N₀, Network.call], rfl, .inr fun c hc => ?_⟩
      rw [hair₁ c hc]
      exact hvalid
  have hstart : HealthyRun pairHosts p.flood false p N₁ ∅ := by
    refine .start N₀ ⟨0, 0⟩ r₀ r q ⟨fun _ hc => hc.elim, fun _ => rfl, fun _ => rfl, fun _ => rfl⟩
      (fun i s hs => ?_) rfl hsend hhealthy
    cases i with
    | false =>
      cases Option.some.inj hs
      exact hfresh₀
    | true =>
      cases Option.some.inj hs
      exact hfresh
  have hdeliver := hstart.deliver _ _ true ⟨0, 0⟩ (signingRouting true) ⟨q, 0⟩
    (.inr ⟨r, q, hsend, rfl⟩) rfl hrecv (fun _ m hm => by cases hm) (by
      refine healthy_of_alone fun i => ?_
      cases i with
      | false =>
        exact ⟨r, by simp [N₁, Network.call, NetNode.record, hsend], hnone, .inl hseen⟩
      | true => exact ⟨r₂, by simp [Network.call, NetNode.record, hrelay], hnone₂, .inl hseen₂⟩)
  have hcovers := flood_covers (fun i j => i ≠ j) (by decide) hsrc (by omega)
    (by rw [httl]; decide) hdeliver ?_ (Relation.ReflTransGen.single (by decide : false ≠ true))
  · exact ⟨r₀, p, _, _, hmake, htopo, hdeliver, hcovers⟩
  · -- the station 2 got the copy of the station 1, and its own goes to the source only
    intro i j c hlink hc _ hhop hj
    have hj : j = true := by
      cases j with
      | false => exact absurd hsrc.symm hj
      | true => rfl
    subst hj
    rcases hc with hc | ⟨r', q', hq', rfl⟩
    · have hpacket := hair₁ c hc
      rcases hc with hc | ⟨r', q', hq', rfl⟩
      · exact hc.elim
      · rw [hsend] at hq'
        cases hq'
        exact .inl rfl
    · have hi : i = false := by
        cases i with
        | false => rfl
        | true => exact absurd rfl hlink
      rw [hi, (recvFlood_sent_hop hq').2] at hhop
      exact absurd hhop (by decide)

end Awds.Proofs
