import Awds.Proofs.Routing.Flood
import Awds.Routing.Flow

/-!
# `Awds.Proofs.Routing.FlowDelivery`: packets that follow the rules of their flow

A chain of stations with rules for the flow `f` leads from `a` to `b` (`LeadsTo`). `journey`
follows a packet through the network: it lists the stations that `sendFlowPacket` runs at and the
receivers that are called. The medium gives every packet to the station it is sent to.

The packet stays on the chain if no firewall stops it. At its end `sendFlowPacket` looks the
receiver up by the flow type of the packet and not by the flow, and `newFlowPacket` leaves the
flow type 0. So `flow_delivered_iff` asks that the receiver of the flow 0 be that of the flow
`f`.
-/

set_option autoImplicit false

namespace Awds.Proofs

open Std (ExtTreeMap)
open Awds.Lib Awds.AwdsRouting Awds.FlowTables

/-- A station with its tables of flows. -/
structure FlowStation (ρ : Type) where
  host : Host
  routing : AwdsRouting
  tables : FlowTables ρ

section
variable {ρ : Type}

/-- The rules for `f` lead from a station to the station `b`, over the stations of the list. -/
inductive LeadsTo (net : NodeId → FlowStation ρ) (f : FlowId) (b : NodeId) :
    NodeId → List NodeId → Prop
  | arrived : LeadsTo net f b b [b]
  | rule (a next : NodeId) (chain : List NodeId) (other : a ≠ b)
      (rule : (net a).tables.forwardingTable[f]? = some next)
      (rest : LeadsTo net f b next chain) : LeadsTo net f b a (a :: chain)

/-- The way of the packet `p` that `sendFlowPacket` gets at the station `n`, at most `k`
stations of it: the stations, and the receivers that are called there. A station reads
`medium q` of the packet `q` that is sent to it. -/
def journey (net : NodeId → FlowStation ρ) (medium : BasePacket → BasePacket) :
    Nat → NodeId → BasePacket → List NodeId × List (NodeId × ρ)
  | 0, _, _ => ([], [])
  | k + 1, n, p =>
    match sendFlowPacket (net n).host (net n).tables p with
    | .ok (.deliver receiver _) => ([n], [(n, receiver)])
    | .ok (.send q) =>
      let a := medium q
      if (net q.dest).routing.recvPacket (net q.dest).host a = some .forward then
        let (way, calls) := journey net medium k q.dest a
        (n :: way, calls)
      else ([n], [])
    | _ => ([n], [])

/-- The packet `p` passes the firewalls of the stations of a chain, one after the other. -/
def PassesAll (net : NodeId → FlowStation ρ) (medium : BasePacket → BasePacket) :
    BasePacket → List NodeId → Prop
  | _, [] => True
  | p, n :: chain =>
    (net n).routing.passesFirewall (medium (p.setDest n)) = true ∧
      PassesAll net medium (medium (p.setDest n)) chain

/-- The packet that a station creates for the flow `f` and the flow destination `b`. -/
def flowPacketTo (host : Host) (f : FlowId) (b : NodeId) (payload : List UInt8) : BasePacket :=
  let p := FlowPacket.setFlowDest (newFlowPacket host f) b
  { p.write FlowPacket.flowPacketEnd payload with
    size := FlowPacket.flowPacketEnd + payload.length }

/-- A packet from `a` to `b` of the flow `f` that can be received and whose flow type is 0. -/
structure InFlow (f : FlowId) (a b : NodeId) (p : BasePacket) : Prop where
  type : p.getType = .forward
  src : SrcPacket.getSrc p = a
  flowDest : FlowPacket.getFlowDest p = b
  flowId : FlowPacket.getFlowId p = f
  flowType : FlowPacket.getFlowType p = 0
  header : FlowPacket.flowPacketEnd ≤ p.size
  fits : p.size ≤ BasePacket.maxSize

variable {net : NodeId → FlowStation ρ} {medium : BasePacket → BasePacket} {f : FlowId}
  {a b : NodeId} {chain : List NodeId} {p q : BasePacket} {receiver : ρ}

/-! ### The chain -/

/-- A rule is entered only where there is none. -/
theorem addForwardingRule_new {t t' : FlowTables ρ} (h : t.addForwardingRule f b = (t', true)) :
    t'.forwardingTable[f]? = some b := by
  unfold addForwardingRule at h
  split at h
  · cases h
  · cases h
    exact ExtTreeMap.getElem?_insert_self

/-- So is a receiver. -/
theorem addFlowReceiver_new {t t' : FlowTables ρ}
    (h : t.addFlowReceiver f receiver = (t', true)) :
    t'.flowReceiverMap[f]? = some receiver := by
  unfold addFlowReceiver at h
  split at h
  · cases h
  · cases h
    exact ExtTreeMap.getElem?_insert_self

/-- The rules of a flow leave no choice. -/
theorem LeadsTo.unique {chain' : List NodeId} (h : LeadsTo net f b a chain)
    (h' : LeadsTo net f b a chain') : chain = chain' := by
  induction h generalizing chain' with
  | arrived =>
    cases h' with
    | arrived => rfl
    | rule _ _ _ other _ _ => exact absurd rfl other
  | rule a next chain other hrule rest ih =>
    cases h' with
    | arrived => exact absurd rfl other
    | rule _ next' chain' other' hrule' rest' =>
      rw [hrule] at hrule'
      cases hrule'
      rw [ih rest']

/-- The end of a chain from one of its stations on is a chain. -/
theorem LeadsTo.of_mem (h : LeadsTo net f b a chain) {n : NodeId} (hn : n ∈ chain) :
    ∃ chain', LeadsTo net f b n chain' ∧ chain'.length ≤ chain.length := by
  induction h with
  | arrived =>
    rw [List.mem_singleton.mp hn]
    exact ⟨_, .arrived, Nat.le_refl _⟩
  | rule a next chain other hrule rest ih =>
    rcases List.mem_cons.mp hn with rfl | hmem
    · exact ⟨_, .rule _ next chain other hrule rest, Nat.le_refl _⟩
    · obtain ⟨chain', hchain, hlen⟩ := ih hmem
      exact ⟨chain', hchain, Nat.le_succ_of_le hlen⟩

/-- A chain begins at its first station. -/
theorem LeadsTo.head (h : LeadsTo net f b a chain) : chain = a :: chain.tail := by
  cases h with
  | arrived => rfl
  | rule _ next chain other hrule rest => rfl

/-- A chain does not come back to the station it starts at. -/
theorem LeadsTo.not_mem_tail (h : LeadsTo net f b a chain) : a ∉ chain.tail := by
  intro hmem
  cases h with
  | arrived => cases hmem
  | rule _ next chain other hrule rest =>
    obtain ⟨chain', hchain, hlen⟩ := rest.of_mem hmem
    have heq := hchain.unique (.rule a next chain other hrule rest)
    rw [heq, List.length_cons] at hlen
    omega

/-! ### The packet -/

/-- A packet of the flow arrives as one. -/
theorem InFlow.arrives (h : InFlow f a b p) (n : NodeId) (harr : (p.setDest n).Arrives q) :
    InFlow f a b q := by
  have hbytes : ∀ i, i < 23 → q.buffer i = p.buffer i := fun i hi =>
    harr.bytes i (Nat.lt_of_lt_of_le hi h.header)
  have hread : ∀ off n, off + n ≤ 23 → q.buffer.read off n = p.buffer.read off n :=
    fun off n hoff => Buffer.read_congr fun i _ hi => hbytes i (by omega)
  refine ⟨?_, ?_, ?_, ?_, ?_, h.header.trans harr.size, harr.fits⟩
  · unfold BasePacket.getType
    rw [hbytes 0 (by decide)]
    exact h.type
  · unfold SrcPacket.getSrc
    rw [hread _ _ (by decide)]
    exact h.src
  · unfold FlowPacket.getFlowDest
    rw [hread _ _ (by decide)]
    exact h.flowDest
  · unfold FlowPacket.getFlowId
    rw [hread _ _ (by decide)]
    exact h.flowId
  · unfold FlowPacket.getFlowType
    rw [hread _ _ (by decide)]
    exact h.flowType

/-- The packet as its creator passes it to `sendFlowPacket`. -/
theorem inFlow_flowPacketTo (host : Host) (f : FlowId) (b : NodeId) {payload : List UInt8}
    (hfits : FlowPacket.flowPacketEnd + payload.length ≤ BasePacket.maxSize) :
    InFlow f host.myNodeId b (flowPacketTo host f b payload) := by
  have hpayload : ∀ off n, off + n ≤ 23 →
      (flowPacketTo host f b payload).buffer.read off n =
        (FlowPacket.setFlowDest (newFlowPacket host f) b).buffer.read off n :=
    fun off n h => Buffer.read_write_disjoint _ _ (.inl h)
  have hdest : ∀ off n, off + n ≤ 9 ∨ 15 ≤ off →
      (FlowPacket.setFlowDest (newFlowPacket host f) b).buffer.read off n =
        (newFlowPacket host f).buffer.read off n := by
    intro off n h
    refine Buffer.read_write_disjoint _ _ ?_
    rwa [NodeId.length_toArray]
  -- what `newFlowPacket` has done in front of `setSrc`
  let new := SrcPacket.setTraceFlag (BasePacket.new.setType .forward) false
  have hid : ∀ off n, off + n ≤ 15 ∨ 19 ≤ off → (newFlowPacket host f).buffer.read off n =
      (SrcPacket.setSrc new host.myNodeId).buffer.read off n := by
    intro off n h
    refine Buffer.read_write_disjoint _ _ ?_
    rwa [length_toBigEndian]
  refine ⟨?_, ?_, ?_, ?_, ?_, Nat.le_add_right _ _, hfits⟩
  · refine (getType_write _ _ (by decide)).trans ((getType_write _ _ (by decide)).trans ?_)
    refine (getType_write _ _ (by decide)).trans ((getType_write new _ (by decide)).trans ?_)
    decide +kernel
  · unfold SrcPacket.getSrc
    rw [hpayload _ _ (by decide), hdest _ _ (by decide), hid _ _ (by decide)]
    have hself := Buffer.read_write_self new.buffer SrcPacket.offsetSrc host.myNodeId.toArray
    rw [NodeId.length_toArray] at hself
    exact (congrArg NodeId.fromArray hself).trans (NodeId.fromArray_toArray _)
  · unfold FlowPacket.getFlowDest
    rw [hpayload _ _ (by decide)]
    have hself := Buffer.read_write_self (newFlowPacket host f).buffer FlowPacket.offsetFlowDest
      b.toArray
    rw [NodeId.length_toArray] at hself
    exact (congrArg NodeId.fromArray hself).trans (NodeId.fromArray_toArray _)
  · unfold FlowPacket.getFlowId
    rw [hpayload _ _ (by decide), hdest _ _ (by decide)]
    have hself := Buffer.read_write_self (SrcPacket.setSrc new host.myNodeId).buffer
      FlowPacket.offsetFlowId (toBigEndian 4 f.toNat)
    rw [length_toBigEndian] at hself
    have hnum := ofBigEndian_toBigEndian_of_lt (n := 4) f.toNat_lt
    exact (congrArg (fun bs => UInt32.ofNat (ofBigEndian bs)) hself).trans
      ((congrArg UInt32.ofNat hnum).trans UInt32.ofNat_toNat)
  · unfold FlowPacket.getFlowType
    rw [hpayload _ _ (by decide), hdest _ _ (by decide), hid _ _ (by decide)]
    have hsrc : (SrcPacket.setSrc new host.myNodeId).buffer.read FlowPacket.offsetFlowType 4 =
        new.buffer.read FlowPacket.offsetFlowType 4 := by
      refine Buffer.read_write_disjoint _ _ (.inr ?_)
      rw [NodeId.length_toArray]
      decide
    rw [hsrc]
    decide +kernel

/-- What `sendFlowPacket` does at the flow destination. -/
theorem sendFlowPacket_arrived (h : InFlow f a b p) {host : Host} (hhost : host.myNodeId = b)
    (t : FlowTables ρ) : sendFlowPacket host t p = .ok (match t.flowReceiverMap[(0 : FlowId)]? with
      | none => .noReceiver
      | some receiver => .deliver receiver p) := by
  unfold sendFlowPacket
  rw [h.type, h.flowDest, h.flowType, if_neg (not_not.mpr rfl), if_pos hhost.symm]
  split <;> simp_all

/-- What it does at another station that has a rule. -/
theorem sendFlowPacket_rule (h : InFlow f a b p) {host : Host} {n next : NodeId}
    (hhost : host.myNodeId = n) (hother : n ≠ b) {t : FlowTables ρ}
    (hrule : t.forwardingTable[f]? = some next) :
    sendFlowPacket host t p = .ok (.send (p.setDest next)) := by
  have hdest : b ≠ host.myNodeId := fun hb => hother (hhost.symm.trans hb.symm)
  unfold sendFlowPacket
  rw [h.type, h.flowDest, h.flowId, if_neg (not_not.mpr rfl), if_neg hdest, hrule]

/-- `recv_packet` gives a packet of the flow to `sendFlowPacket` unless it is the station's own
or the firewall stops it. -/
theorem recvPacket_forward_iff (h : InFlow f a b p) (host : Host) (r : AwdsRouting)
    (hother : host.myNodeId ≠ a) :
    r.recvPacket host p = some .forward ↔ r.passesFirewall p = true := by
  have hsrc : SrcPacket.getSrc p ≠ host.myNodeId := fun hs => hother (hs.symm.trans h.src)
  unfold recvPacket
  rw [h.type]
  constructor
  · intro hrecv
    split at hrecv
    · rename_i hpass
      exact hpass.1
    · cases hrecv
  · intro hpass
    rw [if_pos ⟨hpass, hsrc⟩]

/-- The packet goes along the chain and to the receiver exactly if it passes the firewalls and
the receiver is that of the flow type 0. The induction is on the chain. -/
theorem journey_iff (hmedium : ∀ q : BasePacket, q.size ≤ BasePacket.maxSize → q.Arrives (medium q))
    (hid : ∀ n, (net n).host.myNodeId = n) {n : NodeId} (hchain : LeadsTo net f b n chain)
    (hback : a ∉ chain.tail) (hp : InFlow f a b p) {k : Nat} (hk : chain.length ≤ k) :
    journey net medium k n p = (chain, [(b, receiver)]) ↔
      (net b).tables.flowReceiverMap[(0 : FlowId)]? = some receiver ∧
        PassesAll net medium p chain.tail := by
  induction hchain generalizing p k with
  | arrived =>
    obtain ⟨k, rfl⟩ := Nat.exists_eq_succ_of_ne_zero (Nat.ne_of_gt hk)
    unfold journey
    rw [sendFlowPacket_arrived hp (hid b)]
    cases (net b).tables.flowReceiverMap[(0 : FlowId)]? with
    | none => simp
    | some receiver' => simp [PassesAll]
  | rule n next chain other hrule rest ih =>
    obtain ⟨k, rfl⟩ := Nat.exists_eq_succ_of_ne_zero
      (Nat.ne_of_gt (Nat.lt_of_lt_of_le (Nat.succ_pos _) hk))
    have hlen : chain.length ≤ k := Nat.le_of_succ_le_succ hk
    have harr := hp.arrives next (hmedium (p.setDest next) hp.fits)
    -- the source is not on the rest of the chain, so no station takes the packet for its own
    have hhead := rest.head
    have hsrc : next ≠ a ∧ a ∉ chain.tail := by
      have hmem : a ∉ chain := hback
      rw [hhead, List.mem_cons, not_or] at hmem
      exact ⟨Ne.symm hmem.1, hmem.2⟩
    have hrest := ih hsrc.2 harr hlen
    have hpasses : PassesAll net medium p (n :: chain).tail ↔
        (net next).routing.passesFirewall (medium (p.setDest next)) = true ∧
          PassesAll net medium (medium (p.setDest next)) chain.tail := by
      show PassesAll net medium p chain ↔ _
      rw [hhead]
      exact Iff.rfl
    rw [hpasses]
    unfold journey
    rw [sendFlowPacket_rule hp (hid n) other hrule]
    dsimp only
    have hrecv := recvPacket_forward_iff harr (net next).host (net next).routing
      (by rw [hid]; exact hsrc.1)
    rw [show (p.setDest next).dest = next from rfl]
    by_cases hfire : (net next).routing.passesFirewall (medium (p.setDest next)) = true
    · rw [if_pos (hrecv.mpr hfire)]
      constructor
      · intro h
        obtain ⟨hway, hcalls⟩ := Prod.ext_iff.mp h
        obtain ⟨hreceiver, hpass⟩ := hrest.mp (Prod.ext (List.cons.inj hway).2 hcalls)
        exact ⟨hreceiver, hfire, hpass⟩
      · rintro ⟨hreceiver, -, hpass⟩
        rw [hrest.mpr ⟨hreceiver, hpass⟩]
    · rw [if_neg (mt hrecv.mp hfire)]
      constructor
      · intro h
        cases (Prod.ext_iff.mp h).2
      · rintro ⟨-, hpass, -⟩
        exact absurd hpass hfire

/-- Take a chain of stations with rules for the flow `f` from `a` to `b`, where a receiver is
registered for `f`. A packet that `a` creates for `f` and `b` visits the stations of the chain
and `b` calls that receiver, once, if and only if it is also the receiver of the flow 0 and no
firewall on the chain stops the packet. -/
theorem flow_delivered_iff
    (hmedium : ∀ q : BasePacket, q.size ≤ BasePacket.maxSize → q.Arrives (medium q))
    (hid : ∀ n, (net n).host.myNodeId = n) (hchain : LeadsTo net f b a chain)
    (hreceiver : (net b).tables.flowReceiverMap[f]? = some receiver) {payload : List UInt8}
    (hfits : FlowPacket.flowPacketEnd + payload.length ≤ BasePacket.maxSize) {k : Nat}
    (hk : chain.length ≤ k) :
    journey net medium k a (flowPacketTo (net a).host f b payload) = (chain, [(b, receiver)]) ↔
      (net b).tables.flowReceiverMap[(0 : FlowId)]? = (net b).tables.flowReceiverMap[f]? ∧
        PassesAll net medium (flowPacketTo (net a).host f b payload) chain.tail := by
  have hp := inFlow_flowPacketTo (net a).host f b hfits
  rw [hid] at hp
  rw [hreceiver]
  exact journey_iff hmedium hid hchain hchain.not_mem_tail hp hk

end

/-- The station 1 has a rule for the flow `f` to the station 2, and that one a receiver for
it. -/
def flowPair (f : FlowId) (n : NodeId) : FlowStation Nat where
  host := { Station.hopCount n with broadcastId := -1, ccm := nullCcm }
  routing := pairRouting false
  tables :=
    if n = 1 then (addForwardingRule {} f 2).1
    else if n = 2 then (addFlowReceiver {} f 7).1
    else {}

/-- The rule of the first station of the pair leads to the second. -/
theorem leadsTo_flowPair (f : FlowId) : LeadsTo (flowPair f) f 2 1 [1, 2] := by
  refine .rule 1 2 [2] (by decide) ?_ .arrived
  exact addForwardingRule_new (t := {}) (b := 2) rfl

/-- The second station has a receiver. -/
theorem receiver_flowPair (f : FlowId) : (flowPair f 2).tables.flowReceiverMap[f]? = some 7 :=
  addFlowReceiver_new (t := {}) rfl

/-- A medium that pads nothing. -/
theorem arrives_unpadded (q : BasePacket) (h : q.size ≤ BasePacket.maxSize) : q.Arrives (id q) :=
  ⟨Nat.le_refl _, h, fun _ _ => rfl, fun _ _ => .inr rfl⟩

/-- The flow 0. -/
theorem flow_delivered_zero :
    journey (flowPair 0) id 2 1 (flowPacketTo (flowPair 0 1).host 0 2 []) = ([1, 2], [(2, 7)]) :=
  (flow_delivered_iff arrives_unpadded (fun _ => rfl) (leadsTo_flowPair 0) (receiver_flowPair 0)
    (by decide) (Nat.le_refl 2)).mpr ⟨rfl, rfl, trivial⟩

/-- The flow 5: the packet arrives and no receiver is called. -/
theorem flow_not_delivered : LeadsTo (flowPair 5) 5 2 1 [1, 2] ∧
    (flowPair 5 2).tables.flowReceiverMap[(5 : FlowId)]? = some 7 ∧
    journey (flowPair 5) id 2 1 (flowPacketTo (flowPair 5 1).host 5 2 []) = ([1, 2], []) :=
  ⟨leadsTo_flowPair 5, receiver_flowPair 5, by decide +kernel⟩

end Awds.Proofs
