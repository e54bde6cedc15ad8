import Awds.Proofs.Crypto.CcmMode
import Awds.Proofs.Crypto.RoundTrip
import Awds.Proofs.Kernel.FastPath
import Awds.Proofs.Kernel.LocalDelivery
import Awds.Proofs.PacketHandlers
import Awds.Proofs.Routing.FlowDelivery

/-!
# `Awds.Proofs.Routing.FrameDelivery`: a frame from one tap interface to another

A frame that `tap_recv` reads at a station goes through a unicast packet, which may be encrypted,
over the stations on the way, each of which looks the next hop up in its own routes, to the tap
interface of the station behind the address of the frame.

`Carried` is the way of a packet. A station of it gets what the medium makes of the packet that
the station before it has sent. `frame_delivered` says what happens in a network whose stations
have computed their routes from the same graph (`Converged`): the frame is written once, at the
destination, as it was read. The destination learns the source, so it sends the answer back with
a unicast packet too.

The TTL of a new packet is 32 and each station takes one off it, so a graph of up to 32 stations
has no way that is too long: a shortest way visits no station twice.
-/

set_option autoImplicit false

namespace Awds.Proofs

open Std (ExtTreeMap)
open Awds.Lib Awds.AwdsRouting

/-! ### The way of a packet -/

/-- A station when it gets a packet. -/
structure UnicastStation where
  host : Host
  clock : Clock
  routing : AwdsRouting

/-- The medium gives a packet that fits to the next station with all its bytes and with its
size. A medium that pads short packets is left out: the tap interface takes the length of the
frame from the size of the packet, so it would write the padding too. -/
def KeepsPackets (medium : BasePacket → BasePacket) : Prop :=
  ∀ q : BasePacket, q.size ≤ BasePacket.maxSize → q.Arrives (medium q) ∧ (medium q).size = q.size

/-- The station `u` has come to `action`. The packet is passed on by the stations of the path,
the first of which is `u`, and the last one, `d`, gives the packet `q` to its handler. -/
inductive Carried (net : NodeId → UnicastStation) (medium : BasePacket → BasePacket) (d : NodeId)
    (q : BasePacket) : NodeId → UnicastAction → List NodeId → Prop
  | arrived : Carried net medium d q d (.deliver q) [d]
  | hop (u v : NodeId) (s : BasePacket) (r : AwdsRouting) (action : UnicastAction)
      (path : List NodeId) (addressed : s.dest = v)
      (unicast : (net v).routing.recvPacket (net v).host (medium s) = some .unicast)
      (received : (net v).routing.recvUnicast (net v).host (net v).clock (medium s) =
        .ok (r, action))
      (rest : Carried net medium d q v action path) :
      Carried net medium d q u (.send s) (u :: path)

/-- The stations of the graph `adj` have computed their routes from it, and no firewall stops a
unicast packet. -/
structure Converged (net : NodeId → UnicastStation) (adj : AdjList) : Prop where
  own : ∀ u, (net u).host.myNodeId = u
  weights : WeightsIn adj
  size : adj.size ≤ 32
  routes : ∀ u ∈ adj, ∃ (top : RTopology) (now : AbsTime), SameWeights adj top.adjList ∧
    Unexpired now top.adjList ∧
    top.updateTopology (net u).host.toStation now = .ok (net u).routing.topology
  firewall : ∀ u ∈ adj, ∀ p : BasePacket, p.getType = .unicast →
    (net u).routing.passesFirewall p = true

/-- The station with the state `r'` can read what `src`, the station with the state `r`, sends
next: neither of them encrypts, or they have the same key and the last number that was accepted
from `src` is below the next one. -/
inductive CanRead (src : NodeId) (r r' : AwdsRouting) : Prop
  | plain (sender : r.cryptoUnit = none) (receiver : r'.cryptoUnit = none)
  | encrypted (cu cu' : AesCcmCryptoUnit) (sender : r.cryptoUnit = some cu)
      (receiver : r'.cryptoUnit = some cu') (key : cu'.key = cu.key)
      (fresh : (cu'.ivMap[src]?).getD cu.lastIv < cu.lastIv + 1)

/-! ### A packet on its way -/

/-- The packet `p` is the packet `orig`, of `s` for `d`, with the TTL `t`. What is rewritten on
the way are the next hop and the TTL. -/
structure Underway (s d : NodeId) (orig : BasePacket) (t : Nat) (p : BasePacket) : Prop where
  size : p.size = orig.size
  bytes : ∀ i, i < orig.size → i < 15 ∨ 22 ≤ i → p.buffer i = orig.buffer i
  ttl : UnicastPacket.getTTL p = t

/-- The packet that `tap_recv` makes of a frame. -/
structure ForStation (s d : NodeId) (orig : BasePacket) : Prop where
  header : UnicastPacket.unicastPacketEnd ≤ orig.size
  fits : orig.size ≤ BasePacket.maxSize
  plain : PlainUnicast orig
  src : SrcPacket.getSrc orig = s
  dest : UnicastPacket.getUcDest orig = d

section Packet

variable {s d u v : NodeId} {orig p q : BasePacket} {t : Nat}

/-- The type of a packet stays on the way. -/
theorem Underway.plain (h : Underway s d orig t p) (ho : ForStation s d orig) :
    PlainUnicast p := by
  have hsize : 23 ≤ orig.size := ho.header
  exact (h.bytes 0 (by omega) (.inl (by decide))).trans ho.plain

/-- The source stays as well. -/
theorem Underway.src (h : Underway s d orig t p) (ho : ForStation s d orig) :
    SrcPacket.getSrc p = s := by
  have hsize : 23 ≤ orig.size := ho.header
  rw [← ho.src]
  exact getSrc_congr fun i _ hi => h.bytes i (by omega) (.inl (by omega))

/-- The destination is not rewritten either. -/
theorem Underway.dest (h : Underway s d orig t p) (ho : ForStation s d orig) :
    UnicastPacket.getUcDest p = d := by
  have hsize : 23 ≤ orig.size := ho.header
  rw [← ho.dest]
  exact getUcDest_congr fun i _ hi => h.bytes i (by omega) (.inl (by omega))

/-- A write to the next hop. -/
theorem Underway.setNextHop (h : Underway s d orig t p) (hop : NodeId) :
    Underway s d orig t ((UnicastPacket.setNextHop p hop).setDest hop) := by
  refine ⟨h.size, fun i hlt hi => ?_, ?_⟩
  · rw [← h.bytes i hlt hi]
    exact setNextHop_buffer p hop (by omega)
  · rw [← h.ttl]
    exact congrArg UInt8.toNat (setNextHop_buffer p hop (i := 21) (.inr (Nat.le_refl 21)))

/-- A decrement of the TTL is a step on the way. -/
theorem Underway.decrTTL (h : Underway s d orig (t + 1) p) :
    Underway s d orig t (UnicastPacket.decrTTL p) := by
  refine ⟨h.size, fun i hlt hi => ?_, ?_⟩
  · rw [← h.bytes i hlt hi]
    exact decrTTL_buffer p (by
      show i ≠ 21
      omega)
  · have hbyte : (UnicastPacket.decrTTL p).buffer 21 = p.buffer 21 - 1 :=
      Buffer.write_at p.buffer [p.buffer 21 - 1] 21 0 Nat.one_pos
    have httl : (p.buffer 21).toNat = t + 1 := h.ttl
    show ((UnicastPacket.decrTTL p).buffer 21).toNat = t
    rw [hbyte, UInt8.toNat_sub_of_le _ _ (by
      show 1 ≤ (p.buffer 21).toNat
      omega), httl]
    rfl

/-- A packet that is on its way arrives as it is. -/
theorem Underway.arrives (h : Underway s d orig t p) (ho : ForStation s d orig)
    (harr : p.Arrives q) (hsize : q.size = p.size) : Underway s d orig t q := by
  have hheader : 23 ≤ orig.size := ho.header
  have hlen := h.size
  refine ⟨hsize.trans h.size, fun i hlt hi => ?_, ?_⟩
  · rw [harr.bytes i (by omega), h.bytes i hlt hi]
  · rw [← h.ttl]
    exact congrArg UInt8.toNat (harr.bytes 21 (by omega))

/-- The next hop that a station writes is the one the next station reads. -/
theorem getNextHop_setNextHop (p : BasePacket) (hop : NodeId) :
    UnicastPacket.getNextHop (UnicastPacket.setNextHop p hop) = hop := by
  have hself := Buffer.read_write_self p.buffer UnicastPacket.offsetNextHop hop.toArray
  rw [NodeId.length_toArray] at hself
  unfold UnicastPacket.getNextHop UnicastPacket.setNextHop
  rw [BasePacket.write_buffer, hself, NodeId.fromArray_toArray]

/-- Arriving does not change the next hop. -/
theorem getNextHop_arrives (harr : p.Arrives q) (hsize : 21 ≤ p.size) :
    UnicastPacket.getNextHop q = UnicastPacket.getNextHop p := by
  unfold UnicastPacket.getNextHop
  refine congrArg _ (Buffer.read_congr fun i _ hi => harr.bytes i ?_)
  have hi : i < 15 + 6 := hi
  omega

end Packet

/-! ### What one station does -/

section Station

variable {s d v : NodeId} {orig p : BasePacket} {t : Nat} {host : Host} {clock : Clock}
  {r : AwdsRouting}

/-- The TTL is not the one at which `recv_unicast` drops a packet. -/
theorem Underway.ttl_ne_one (h : Underway s d orig (t + 1) p) (ht : 0 < t) :
    p.buffer UnicastPacket.offsetTTL ≠ 1 := by
  intro hone
  have httl : (p.buffer UnicastPacket.offsetTTL).toNat = t + 1 := h.ttl
  rw [hone] at httl
  have hval : (1 : UInt8).toNat = 1 := rfl
  omega

/-- The destination gives the packet to the handler. -/
theorem recvUnicast_at_dest (h : Underway s d orig (t + 1) p) (ho : ForStation s d orig)
    (ht : 0 < t) (hd : host.myNodeId = d) (hhop : UnicastPacket.getNextHop p = d) :
    r.recvUnicast host clock p = .ok (r, .deliver (UnicastPacket.decrTTL p)) := by
  rw [recvUnicast_plain (h.plain ho), if_neg (h.ttl_ne_one ht), hd,
    if_neg (not_not.mpr hhop), if_pos (h.dest ho)]

/-- Another station sends the packet to the next hop that it has for the destination. -/
theorem recvUnicast_on_way {u : NodeId} (h : Underway s d orig (t + 1) p)
    (ho : ForStation s d orig) (ht : 0 < t) (hu : host.myNodeId = u) (hud : u ≠ d)
    (hhop : UnicastPacket.getNextHop p = u)
    (hnext : hopTo host.toStation clock.lastEventTime r.topology d = some v) :
    ∃ r', r.recvUnicast host clock p = .ok (r',
      .send ((UnicastPacket.setNextHop (UnicastPacket.decrTTL p) v).setDest v)) := by
  rw [recvUnicast_plain (h.plain ho), if_neg (h.ttl_ne_one ht), hu,
    if_neg (not_not.mpr hhop), if_neg (by rw [h.dest ho]; exact Ne.symm hud)]
  unfold routeUnicast
  rw [getUcDest_decrTTL, h.dest ho]
  unfold hopTo at hnext
  split at hnext
  · rename_i top hop hrun
    cases hnext
    rw [hrun, except_bind_ok]
    exact ⟨_, rfl⟩
  · cases hnext

end Station

/-! ### The way through the network -/

section Way

variable {net : NodeId → UnicastStation} {medium : BasePacket → BasePacket} {adj : AdjList}
  {s d u : NodeId} {orig p : BasePacket} {path : List NodeId} {n : Nat}

/-- The next hops of the stations for the destination `d`. -/
def nextHops (net : NodeId → UnicastStation) (d : NodeId) (u : NodeId) : Option NodeId :=
  hopTo (net u).host.toStation (net u).clock.lastEventTime (net u).routing.topology d

/-- A path begins at its first station. -/
theorem route_head {E : NodeId → NodeId → Nat → Prop} {next : NodeId → Option NodeId}
    (h : Route E next d u path n) : path = u :: path.tail := by
  cases h with
  | arrived => rfl
  | hop => rfl

/-- A packet with a TTL that is not used up is carried along the next hops of the stations. The
induction is on the route, and the TTL drops with it. The first station need not run the receive
function in the state that it has in `net`: it has created the packet in between. -/
theorem carried_of_route (hmedium : KeepsPackets medium) (hnet : Converged net adj)
    (ho : ForStation s d orig) (h : Route (Edge adj) (nextHops net d) d u path n) (hu : u ∈ adj)
    (hs : ∀ v ∈ path.tail, v ≠ s) {t : Nat} (ht : path.length ≤ t)
    (hp : Underway s d orig (t + 1) p) (hhop : UnicastPacket.getNextHop p = u) (r : AwdsRouting)
    (hr : r.topology = (net u).routing.topology) :
    ∃ r' action q t', r.recvUnicast (net u).host (net u).clock p = .ok (r', action) ∧
      Carried net medium d q u action path ∧ Underway s d orig t' q := by
  induction h generalizing p t r with
  | arrived =>
    refine ⟨r, _, _, t, recvUnicast_at_dest hp ho ?_ (hnet.own d) hhop, .arrived, hp.decrTTL⟩
    exact Nat.lt_of_lt_of_le Nat.one_pos ht
  | @hop u v path c total hud hnext he rest ih =>
    have hv : v ∈ adj := he.1
    have hlen : path.length + 1 ≤ t := ht
    have hhead := route_head rest
    have hvs : v ≠ s := hs v (by
      show v ∈ path
      rw [hhead]
      exact List.mem_cons_self)
    have hnext' : hopTo (net u).host.toStation (net u).clock.lastEventTime r.topology d
        = some v := by
      rw [hr]
      exact hnext
    obtain ⟨r', hrun⟩ := recvUnicast_on_way hp ho (by omega) (hnet.own u) hud hhop hnext'
    -- what the station sends
    have hsent := hp.decrTTL.setNextHop v
    have hsize := hsent.size
    have hheader : 23 ≤ orig.size := ho.header
    obtain ⟨harr, hkept⟩ := hmedium _ (hsize.trans_le ho.fits)
    have hgot := hsent.arrives ho harr hkept
    have hcomes : UnicastPacket.getNextHop (medium
        ((UnicastPacket.setNextHop (UnicastPacket.decrTTL p) v).setDest v)) = v := by
      rw [getNextHop_arrives harr (by omega)]
      exact getNextHop_setNextHop _ v
    -- what the next station gets
    have hunicast : (net v).routing.recvPacket (net v).host (medium
        ((UnicastPacket.setNextHop (UnicastPacket.decrTTL p) v).setDest v)) = some .unicast := by
      refine (recvPacket_plain (hgot.plain ho)).mpr ⟨hnet.firewall v hv _ ?_, ?_⟩
      · unfold BasePacket.getType
        rw [hgot.plain ho]
        rfl
      · rw [hgot.src ho, hnet.own v]
        exact Ne.symm hvs
    obtain ⟨k, rfl⟩ : ∃ k, t = k + 1 := Nat.exists_eq_add_one.mpr (by omega)
    obtain ⟨r2, action, q, t', hrecv, hcarried, hq⟩ := ih hv
      (fun w hw => hs w (List.mem_of_mem_tail hw)) (by omega) hgot hcomes (net v).routing rfl
    exact ⟨r', _, q, t', hrun, .hop u v _ r2 action path rfl hunicast hrecv hcarried, hq⟩

/-- In a network that has converged the next hops lead to every station that can be reached. -/
theorem Converged.route (hnet : Converged net adj) (hs : s ∈ adj)
    (hwalk : ∃ c, Walk (Edge adj) s d c) :
    ∃ path n, Route (Edge adj) (nextHops net d) d s path n ∧ path.Nodup ∧ path.length ≤ 32 := by
  -- Each next hop lies on a shortest way, so the distance gets smaller by its edge.
  have hreport : ∀ u n, u ≠ d → IsDist (Edge adj) u d n →
      ∃ v c m, nextHops net d u = some v ∧ Edge adj u v c ∧ IsDist (Edge adj) v d m ∧
        n = c + m := by
    intro u n hud hn
    have hu : u ∈ adj := by
      cases hn.1 with
      | nil => exact absurd rfl hud
      | cons he _ => exact he.source_mem
    -- The routes of this station were computed from a topology of the same graph.
    obtain ⟨top, now, hsame, hvalid, hupdate⟩ := hnet.routes u hu
    have hown := hnet.own u
    have hsize := hnet.size
    obtain ⟨top', hrun, hclean, hcorrect⟩ := updateTopology_correct (net u).host.toStation
      (by rw [hown]; exact (hsame.mem_iff u).mp hu) (by rw [← hsame.size]; omega)
      (hsame.weightsIn hnet.weights) hvalid
    rw [hupdate] at hrun
    cases hrun
    have hmy : (net u).host.myNodeId ∈ top.adjList := by
      rw [hown]
      exact (hsame.mem_iff u).mp hu
    obtain ⟨-, v, c, m, hv, he, hm, hsum⟩ := hcorrect.hopTo_eq (n := n) hclean
      (net u).clock.lastEventTime hmy (by rw [hown]; exact Ne.symm hud)
      (by rw [hown, hsame.edge]; exact hn)
    rw [hown, hsame.edge] at he
    rw [hsame.edge] at hm
    exact ⟨v, c, m, hv, he, hm, hsum⟩
  -- There is a way, so there is a shortest one, and the next hops follow it.
  obtain ⟨c, hwalk⟩ := hwalk
  obtain ⟨n, hn⟩ := exists_isDist hwalk
  obtain ⟨path, hroute, hnodup, -⟩ := exists_route (nextHops net d)
    (fun u v c he => (he.weight hnet.weights).1) hreport n s hn
  refine ⟨path, n, hroute, hnodup, ?_⟩
  -- A way without repetition is not longer than there are stations.
  have hsub : path ⊆ adj.keys := by
    intro v hv
    rw [ExtTreeMap.mem_keys]
    exact route_mem_adj hroute hs v hv
  have hlen := (hnodup.subperm hsub).length_le
  rw [ExtTreeMap.length_keys] at hlen
  exact hlen.trans hnet.size

end Way

/-! ### The packet of a frame -/

section Frame

variable {host host' : Host} {clock : Clock} {r r' rd : AwdsRouting} {frame : List UInt8}
  {s d : NodeId} {orig p q : BasePacket} {t : Nat}

/-- What the constructor of a unicast packet writes. -/
theorem newUnicastPacket_header (host : Host) (r : AwdsRouting) (type : Nat) :
    SrcPacket.getSrc (r.newUnicastPacket host type).2 = host.myNodeId ∧
      UnicastPacket.getTTL (r.newUnicastPacket host type).2 = 32 := by
  unfold newUnicastPacket UnicastPacket.setUcPacketType SrcPacket.setSeq UnicastPacket.setTTL
    UnicastPacket.setNextHop SrcPacket.setSrc SrcPacket.getSrc UnicastPacket.getTTL
  dsimp only
  simp only [BasePacket.write_buffer]
  generalize (SrcPacket.setTraceFlag (BasePacket.new.setType .unicast) false).buffer = buf
  have hown := Buffer.read_write_self buf SrcPacket.offsetSrc host.myNodeId.toArray
  rw [NodeId.length_toArray] at hown
  constructor
  · -- the other fields lie behind the source
    rw [Buffer.read_write_disjoint _ _ (.inl (by decide)),
      Buffer.read_write_disjoint _ _ (.inl (by decide)),
      Buffer.read_write_disjoint _ _ (.inl (by decide)),
      Buffer.read_write_disjoint _ _ (.inl (by decide)), hown, NodeId.fromArray_toArray]
  · rw [Buffer.write_of_lt _ _ (by decide),
      Buffer.write_of_ge _ _ (by rw [length_toBigEndian]; decide), Buffer.write_singleton]
    rfl

/-- The packet around a frame. -/
theorem plainFrame_forStation (host : Host) (r : AwdsRouting) {frame : List UInt8}
    (d : NodeId) (hlen : frame.length ≤ 3000) :
    ForStation host.myNodeId d (r.plainFrame host frame d).2 ∧
      UnicastPacket.getTTL (r.plainFrame host frame d).2 = 32 := by
  obtain ⟨hplain, hsize, -⟩ := plainFrame_spec host r frame d
  obtain ⟨hsrc, httl⟩ := newUnicastPacket_header host r TapInterface.protoNr
  have hnew := plainUnicast_newUnicastPacket host r TapInterface.protoNr
  -- The bytes of the header are those of the new packet.
  have hbuf : (r.plainFrame host frame d).2.buffer =
      ((r.newUnicastPacket host TapInterface.protoNr).2.buffer.write 9 d.toArray).write 23
        frame := by
    show (((r.newUnicastPacket host TapInterface.protoNr).2.setType .unicast).buffer.write 9
      d.toArray).write 23 frame = _
    rw [hnew.setType]
  have hdest := Buffer.read_write_self (r.newUnicastPacket host TapInterface.protoNr).2.buffer 9
    d.toArray
  rw [NodeId.length_toArray] at hdest
  refine ⟨⟨?_, ?_, hplain, ?_, ?_⟩, ?_⟩
  · -- It has its header.
    rw [hsize]
    exact Nat.le_add_right 23 _
  · -- It fits into the buffer.
    rw [hsize]
    show 23 + frame.length ≤ 4096
    omega
  · -- The source lies in front of both writes.
    rw [← hsrc]
    refine getSrc_congr fun i _ hi => ?_
    rw [hbuf, Buffer.write_of_lt _ _ (by omega), Buffer.write_of_lt _ _ (by omega)]
  · -- The destination is what the first write has put there.
    unfold UnicastPacket.getUcDest
    rw [hbuf, Buffer.read_write_disjoint _ _ (.inl (by decide))]
    exact (congrArg NodeId.fromArray hdest).trans (NodeId.fromArray_toArray d)
  · -- The hops left lie between the two writes.
    rw [← httl]
    unfold UnicastPacket.getTTL
    rw [hbuf, Buffer.write_of_lt _ _ (by decide),
      Buffer.write_of_ge _ _ (by rw [NodeId.length_toArray]; decide)]

/-- The interface has written the frame and knows the station `s` behind its source address. -/
structure HasWritten (clock : Clock) (tap tap' : TapInterface) (s : NodeId)
    (frame : List UInt8) : Prop where
  written : tap'.written = tap.written ++ [frame]
  learned : 12 ≤ frame.length → ∀ t, t ≤ clock.lastEventTime + TapInterface.macLifetime →
    tap'.getNodeForMacAddress ((frame.drop 6).take NodeId.size) t = some s

/-- The end of `recv_unicast` for a packet that holds the frame. -/
theorem writeFrame_frame (clock : Clock) (rd : AwdsRouting)
    (hsize : q.size = 23 + frame.length) (hread : q.buffer.read 23 frame.length = frame)
    (hsrc : SrcPacket.getSrc q = s) :
    HasWritten clock rd.tap (rd.writeFrame clock q UnicastPacket.unicastPacketEnd).tap s frame := by
  constructor
  · rw [writeFrame_written clock rd q (by rw [hsize]; exact Nat.le_add_right 23 _), hsize]
    rw [show 23 + frame.length - UnicastPacket.unicastPacketEnd = frame.length from
      Nat.add_sub_cancel_left _ _]
    exact congrArg (fun f => rd.tap.written ++ [f]) hread
  · intro hlen t ht
    -- the source address of the frame
    have hmac : q.buffer.read (23 + 6) NodeId.size = (frame.drop 6).take NodeId.size := by
      have hsplit : q.buffer.read 23 (6 + (6 + (frame.length - 12))) = frame := by
        rw [show 6 + (6 + (frame.length - 12)) = frame.length by omega]
        exact hread
      rw [Buffer.read_add, Buffer.read_add] at hsplit
      conv_rhs => rw [← hsplit]
      rw [List.drop_left' (Buffer.length_read _ _ _), List.take_left' (Buffer.length_read _ _ _)]
    have hstored : (rd.writeFrame clock q UnicastPacket.unicastPacketEnd).tap.macTable[
        NodeId.fromArray ((frame.drop 6).take NodeId.size)]? =
          some ⟨s, clock.lastEventTime + TapInterface.macLifetime⟩ := by
      rw [← hmac, ← hsrc]
      exact ExtTreeMap.getElem?_insert_self
    unfold TapInterface.getNodeForMacAddress
    rw [hstored]
    dsimp only
    rw [if_neg (Int.not_lt.mpr ht)]

/-- The packet of a frame is the plain packet, encrypted. -/
theorem unicastFrame_eq (host : Host) (r : AwdsRouting) (frame : List UInt8) (d : NodeId) :
    r.unicastFrame host frame d = (r.plainFrame host frame d).1.encryptFrame host
      (r.plainFrame host frame d).2 23 frame.length unicastExtraSign := rfl

/-- Without a crypto unit a frame stays as it is. -/
theorem encryptFrame_plain {off len : Nat} {sg : List MemoryBlock} (h : r.cryptoUnit = none) :
    r.encryptFrame host p off len sg = .ok (r, p) := by
  unfold encryptFrame
  rw [h]

/-- With one it grows by the authentication value and the nonce. -/
theorem encryptFrame_encrypt {off len : Nat} {sg : List MemoryBlock} {cu v : AesCcmCryptoUnit}
    {buf : Buffer} (h : r.cryptoUnit = some cu)
    (henc : cu.encrypt host.ccm p.buffer off len sg = .ok (v, buf)) :
    r.encryptFrame host p off len sg = .ok ({ r with cryptoUnit := some v },
      { p with buffer := buf, size := p.size + cryptoLen }) := by
  unfold encryptFrame
  rw [h]
  dsimp only
  rw [henc, except_bind_ok]

/-- `tap_recv` makes a packet of every frame that it can read. -/
theorem unicastFrame_run (host : Host) (r : AwdsRouting) (d : NodeId)
    (hlen : frame.length ≤ 3000) :
    ∃ r' p, r.unicastFrame host frame d = .ok (r', p) ∧ r'.topology = r.topology ∧
      ForStation host.myNodeId d p ∧ UnicastPacket.getTTL p = 32 := by
  obtain ⟨hfor, httl⟩ := plainFrame_forStation host r d hlen
  obtain ⟨-, hsize, -⟩ := plainFrame_spec host r frame d
  have hunit : (r.plainFrame host frame d).1.cryptoUnit = r.cryptoUnit := rfl
  have htop : (r.plainFrame host frame d).1.topology = r.topology := rfl
  rw [unicastFrame_eq]
  generalize (r.plainFrame host frame d).1 = r0 at hunit htop ⊢
  generalize (r.plainFrame host frame d).2 = p0 at hfor httl hsize ⊢
  -- Without a key the frame stays as it is.
  cases hcu : r.cryptoUnit with
  | none => exact ⟨r0, p0, encryptFrame_plain (hunit.trans hcu), htop, hfor, httl⟩
  -- With one, the payload is encrypted and the trailer added; there is room for both.
  | some cu =>
    have hfit : 23 + frame.length + 16 + (16 + (unicastExtraSign.map MemoryBlock.size).sum) ≤
        BasePacket.maxSize := by
      show 23 + frame.length + 16 + (16 + 16) ≤ 4096
      omega
    obtain ⟨⟨v, buf⟩, henc⟩ := encrypt_run host.ccm cu p0.buffer hfit
    have hrun := encryptFrame_encrypt (hunit.trans hcu) henc
    -- The header is not encrypted.
    have hheader : ∀ i, i < 23 → buf i = p0.buffer i := fun i hi => encryptFrame_header hrun hi
    refine ⟨_, _, hrun, htop, ⟨?_, ?_, ?_, ?_, ?_⟩, ?_⟩
    · exact hfor.header.trans (Nat.le_add_right _ _)
    · show p0.size + 32 ≤ 4096
      omega
    · exact (hheader 0 (by decide)).trans hfor.plain
    · rw [← hfor.src]
      exact getSrc_congr fun i _ hi => hheader i (by omega)
    · rw [← hfor.dest]
      exact getUcDest_congr fun i _ hi => hheader i (by omega)
    · rw [← httl]
      exact congrArg UInt8.toNat (hheader 21 (by decide))

/-- `recv_unicast` with a crypto unit that accepts the packet. -/
theorem recvUnicast_decrypted {cu u2 : AesCcmCryptoUnit} {out : Buffer}
    (hunit : rd.cryptoUnit = some cu) (hsize : q.size = 23 + frame.length + 32)
    (hdec : cu.decryptDupDetect host.ccm (SrcPacket.getSrc q) q.buffer
      UnicastPacket.unicastPacketEnd frame.length unicastExtraSign = .ok (u2, out, true)) :
    TapInterface.recvUnicast host clock rd q =
      .ok ({ rd with cryptoUnit := some u2 }.writeFrame clock
          { q with buffer := out, size := q.size - cryptoLen } UnicastPacket.unicastPacketEnd,
        { q with buffer := out, size := q.size - cryptoLen }) := by
  have hlen : q.sizeMinus (cryptoLen + UnicastPacket.unicastPacketEnd) = .ok frame.length := by
    unfold BasePacket.sizeMinus
    rw [hsize, if_neg (Nat.not_lt.mpr (by
      show 32 + 23 ≤ 23 + frame.length + 32
      omega))]
    refine congrArg Except.ok ?_
    show 23 + frame.length + 32 - (32 + 23) = frame.length
    omega
  unfold TapInterface.recvUnicast
  rw [hunit]
  dsimp only
  rw [hlen, except_bind_ok, hdec, except_bind_ok]
  rfl

/-- The destination unpacks the frame, whatever the stations on the way have written to the next
hop and the TTL. -/
theorem unpacks_sent (hframe : r.unicastFrame host frame d = .ok (r', p))
    (hlen : frame.length ≤ 3000) (hfor : ForStation s d p) (hq : Underway s d p t q)
    (hread : CanRead s r rd) (hccm : host'.ccm = host.ccm) :
    ∃ r2 q2, TapInterface.recvUnicast host' clock rd q = .ok (r2, q2) ∧
      HasWritten clock rd.tap r2.tap s frame := by
  obtain ⟨-, hsize, hcontent⟩ := plainFrame_spec host r frame d
  have hsrc := hq.src hfor
  have hqsize := hq.size
  have hunit : (r.plainFrame host frame d).1.cryptoUnit = r.cryptoUnit := rfl
  rw [unicastFrame_eq] at hframe
  generalize (r.plainFrame host frame d).1 = r0 at hunit hframe
  generalize (r.plainFrame host frame d).2 = p0 at hsize hcontent hframe
  cases hread with
  | plain sender receiver =>
    rw [encryptFrame_plain (hunit.trans sender)] at hframe
    cases hframe
    have hgot : q.buffer.read 23 frame.length = p.buffer.read 23 frame.length :=
      Buffer.read_congr fun i hlo hhi => hq.bytes i (by omega) (.inr (by omega))
    refine ⟨_, q, ?_, writeFrame_frame clock rd (hqsize.trans hsize) (hgot.trans hcontent) hsrc⟩
    unfold TapInterface.recvUnicast
    rw [receiver]
  | encrypted cu cu' sender receiver key fresh =>
    unfold encryptFrame at hframe
    rw [hunit, sender] at hframe
    obtain ⟨⟨v, buf⟩, henc, hframe⟩ := bind_eq_ok.mp hframe
    cases hframe
    have hpsize : q.size = 23 + frame.length + 32 := by
      rw [hqsize, ← hsize]
    have hbytes : ∀ i, i < 23 + frame.length + 32 → i < 15 ∨ 22 ≤ i → q.buffer i = buf i :=
      fun i hi hout => hq.bytes i (by
        show i < p0.size + 32
        omega) hout
    have hroom : 23 + frame.length + (16 + (16 + 16)) ≤ 4096 := by omega
    have hblocks : ∀ i, (∃ b ∈ unicastExtraSign, Covers b i) → q.buffer i = buf i := by
      intro i hi
      have hout := covers_unicastExtraSign hi
      obtain ⟨b, hb, hlo, hhi⟩ := hi
      have hend := unicastExtraSign_le b hb
      exact hbytes i (by omega) hout
    obtain ⟨u2, out, hdec, hplain⟩ : ∃ u2 out,
        cu'.decryptDupDetect host.ccm s q.buffer 23 frame.length unicastExtraSign
          = .ok (u2, out, true) ∧ out.read 23 frame.length = p0.buffer.read 23 frame.length :=
      decrypt_encrypt henc key (by rw [Nat.add_assoc]; exact hroom) unicastExtraSign_le
        (fun i hlo hhi => hbytes i hhi (.inr (by omega))) hblocks fresh
    rw [hcontent] at hplain
    -- the source of the packet is in the header
    have hout : SrcPacket.getSrc ({ q with buffer := out, size := q.size - cryptoLen } :
        BasePacket) = s := by
      rw [← hsrc]
      exact getSrc_congr fun i _ hi => decryptDupDetect_of_lt hdec (by omega)
    have hshort : q.size - cryptoLen = 23 + frame.length := by
      rw [hpsize]
      exact Nat.add_sub_cancel _ _
    exact ⟨_, _, recvUnicast_decrypted receiver hpsize (by rw [hsrc, hccm]; exact hdec),
      writeFrame_frame clock { rd with cryptoUnit := some u2 } hshort hplain hout⟩

/-- The packet as `sendUnicast` gives it to `recv_unicast`. -/
theorem sent_underway (hfor : ForStation s d p) (httl : UnicastPacket.getTTL p = 32) :
    Underway s d p 33
        (UnicastPacket.setNextHop (UnicastPacket.incTTL (p.setType .unicast)) s) ∧
      UnicastPacket.getNextHop
        (UnicastPacket.setNextHop (UnicastPacket.incTTL (p.setType .unicast)) s) = s := by
  rw [hfor.plain.setType]
  refine ⟨⟨rfl, fun i _ hi => ?_, ?_⟩, getNextHop_setNextHop _ s⟩
  · rw [setNextHop_buffer _ s (by omega)]
    exact Buffer.write_of_outside _ _ (by
      show i < 21 ∨ 21 + 1 ≤ i
      omega)
  · have hbyte : (UnicastPacket.setNextHop (UnicastPacket.incTTL p) s).buffer 21 =
        p.buffer 21 + 1 := by
      rw [setNextHop_buffer _ s (.inr (Nat.le_refl 21))]
      exact Buffer.write_at p.buffer [p.buffer 21 + 1] 21 0 Nat.one_pos
    have h32 : (p.buffer 21).toNat = 32 := httl
    show ((UnicastPacket.setNextHop (UnicastPacket.incTTL p) s).buffer 21).toNat = 33
    rw [hbyte, UInt8.toNat_add, h32]
    rfl

end Frame

/-! ### From one interface to the other -/

section Delivery

variable {net : NodeId → UnicastStation} {medium : BasePacket → BasePacket} {adj : AdjList}
  {s d : NodeId} {frame : List UInt8}

/-- Take a network that has converged, over a medium that keeps packets as they are, and a station
`s` whose table of addresses names the station `d` for the frame. If there is a way from `s` to
`d` and `d` can read what `s` sends, the packet that `tap_recv` makes of the frame visits no
station twice, and `d` writes the frame as it was read and learns that `s` is behind its source
address. -/
theorem frame_delivered (hmedium : KeepsPackets medium) (hnet : Converged net adj)
    (hs : s ∈ adj) (hwalk : ∃ c, Walk (Edge adj) s d c)
    (hmac : (net s).routing.tap.getNodeForMacAddress (frame.take NodeId.size)
      (net s).clock.lastEventTime = some d)
    (hlen : frame.length ≤ 3000) (hccm : (net d).host.ccm = (net s).host.ccm)
    (hread : CanRead s (net s).routing (net d).routing) :
    ∃ r action q path, TapInterface.tapRecv (net s).host (net s).clock (net s).routing frame =
        .ok (r, .inr action) ∧
      Carried net medium d q s action path ∧ path.Nodup ∧
      ∃ r' q', TapInterface.recvUnicast (net d).host (net d).clock (net d).routing q =
          .ok (r', q') ∧ HasWritten (net d).clock (net d).routing.tap r'.tap s frame := by
  -- The frame becomes a packet from `s` to `d`.
  obtain ⟨r1, p, hframe, htop, hfor, httl⟩ :=
    unicastFrame_run (net s).host (net s).routing d hlen
  rw [hnet.own s] at hfor
  -- The tables lead from `s` to `d` in at most 32 hops.
  obtain ⟨path, n, hroute, hnodup, hshort⟩ := hnet.route hs hwalk
  -- The way does not come back to the sender, so no station takes the packet for its own.
  have hothers : ∀ v ∈ path.tail, v ≠ s := by
    intro v hv hvs
    rw [route_head hroute] at hnodup
    exact (List.nodup_cons.mp hnodup).1 (hvs ▸ hv)
  obtain ⟨hway, hhop⟩ := sent_underway hfor httl
  obtain ⟨r', action, q, t, hrun, hcarried, hq⟩ :=
    carried_of_route hmedium hnet hfor hroute hs hothers hshort hway hhop r1 htop
  -- At the end it is unpacked into the frame that was read.
  obtain ⟨r2, q2, hrecv, hwritten⟩ : ∃ r2 q2,
      TapInterface.recvUnicast (net d).host (net d).clock (net d).routing q = .ok (r2, q2) ∧
        HasWritten (net d).clock (net d).routing.tap r2.tap s frame :=
    unpacks_sent hframe hlen hfor hq hread hccm
  -- What the tap handler does is exactly this.
  refine ⟨r', action, q, path, ?_, hcarried, hnodup, r2, q2, hrecv, hwritten⟩
  unfold TapInterface.tapRecv
  rw [hmac]
  dsimp only
  unfold tapRecvUnicast
  rw [hframe, except_bind_ok]
  dsimp only
  unfold sendUnicast
  dsimp only
  rw [hnet.own s, hrun, except_bind_ok]

end Delivery

/-- The topology of the station `u` of the triangle. -/
def triangleTopology (u : NodeId) : RTopology :=
  match ({ adjList := triangle } : RTopology).updateTopology (Station.hopCount u) 0 with
  | .ok top => top
  | .error _ => { adjList := triangle }

/-- The stations of the triangle, with one key. The interface of the station 1 knows that the
address 3 is behind the station 3. -/
def triangleNet (u : NodeId) : UnicastStation where
  host := { Station.hopCount u with broadcastId := -1, ccm := vendoredCcm }
  clock := ⟨0, 0⟩
  routing := { pairRouting false with
    topology := triangleTopology u
    cryptoUnit := some ⟨List.replicate 16 7, List.replicate 16 9, 0, ∅⟩
    tap := { macTable := (∅ : ExtTreeMap NodeId MacEntry compare).insert 3 ⟨3, 0⟩ } }

/-- The three stations have converged: each has computed its routes from the triangle. All parts are
evaluated. -/
theorem converged_triangle : Converged triangleNet triangle where
  own _ := rfl
  weights := weightsIn_of_toList (by decide +kernel)
  size := by decide +kernel
  routes := by
    intro u hu
    have hvalid : Unexpired 0 triangle := unexpired_of_toList (by decide +kernel)
    obtain ⟨top, hrun, -⟩ := updateTopology_correct (Station.hopCount u)
      (s := { adjList := triangle }) hu (by decide +kernel)
      (weightsIn_of_toList (by decide +kernel)) hvalid
    refine ⟨{ adjList := triangle }, 0, fun _ => rfl, hvalid, ?_⟩
    show _ = Except.ok (triangleTopology u)
    unfold triangleTopology
    rw [show ({ adjList := triangle } : RTopology).updateTopology
      (triangleNet u).host.toStation 0 = .ok top from hrun, hrun]
  firewall _ _ _ _ := rfl

/-- The station 1 of the triangle sends a frame to the station 3. -/
theorem frame_delivered_triangle :
    ∃ action q path r' q', Carried triangleNet id 3 q 1 action path ∧
      TapInterface.recvUnicast (triangleNet 3).host (triangleNet 3).clock
        (triangleNet 3).routing q = .ok (r', q') ∧
      r'.tap.written = [NodeId.toArray 3 ++ NodeId.toArray 1 ++ [8, 0]] := by
  have hwalk : Walk (Edge triangle) 1 3 9 :=
    .cons (v := 3) ⟨by decide +kernel, { neighbor := 3, metricWeight := 9 }, by decide +kernel,
      rfl, rfl⟩ (.nil 3)
  obtain ⟨r, action, q, path, -, hcarried, -, r', q', hrun, hwritten⟩ :=
    @frame_delivered triangleNet id triangle 1 3 (NodeId.toArray 3 ++ NodeId.toArray 1 ++ [8, 0])
      (fun q hq => ⟨arrives_unpadded q hq, rfl⟩) converged_triangle (by decide +kernel) ⟨9, hwalk⟩
      (by decide +kernel) (by decide) rfl (.encrypted _ _ rfl rfl rfl (by decide +kernel))
  exact ⟨action, q, path, r', q', hcarried, hrun, hwritten.written⟩

end Awds.Proofs
