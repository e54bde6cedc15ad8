import Awds.Routing.Unicast
import Awds.Proofs.Crypto.Inputs
import Awds.Proofs.Routing.Flood

/-!
# `Awds.Proofs.Routing.Authentication`: authentication along a route

The stations on the way of a packet rewrite some fields of its header: `LastHop` and the TTL
of a flood packet, the TTL and `NextHop` of a unicast packet. Neither a signature nor an
encryption may depend on them.

`AgreeOutside lo hi p q` says that `q` is `p` but for the bytes from `lo` to `hi`. One
forwarding step keeps it (`floodHop_agree`, `recvUnicast_agree`), and so does a route of any
length. The fields lie in the blocks that the signature leaves out and outside of those that
the encryption takes in, so `CCM_mode` gets the same input at both ends of the route:
`topo_route` and `frame_route`. `authentication_survives` puts the two together.
-/

set_option autoImplicit false

namespace Awds.Proofs

open Awds.Lib Awds.AwdsRouting Relation

/-- The packets are the same but for the bytes from `lo` to `hi` and the address of the next
station. -/
structure AgreeOutside (lo hi : Nat) (p q : BasePacket) : Prop where
  size : q.size = p.size
  buffer : ∀ i, i < lo ∨ hi ≤ i → q.buffer i = p.buffer i

namespace AgreeOutside

variable {lo hi : Nat} {p q s : BasePacket}

/-- A packet agrees with itself. -/
theorem refl (p : BasePacket) : AgreeOutside lo hi p p := ⟨rfl, fun _ _ => rfl⟩

/-- Two steps that keep the bytes outside of an area keep them together. -/
theorem trans (h : AgreeOutside lo hi p q) (h' : AgreeOutside lo hi q s) :
    AgreeOutside lo hi p s :=
  ⟨h'.size.trans h.size, fun i hi => (h'.buffer i hi).trans (h.buffer i hi)⟩

/-- A write between `lo` and `hi`. -/
theorem write (p : BasePacket) {off : Nat} {bs : List UInt8} (hlo : lo ≤ off)
    (hhi : off + bs.length ≤ hi) : AgreeOutside lo hi p (p.write off bs) := by
  refine ⟨rfl, fun i h => ?_⟩
  rcases h with h | h
  · exact Buffer.write_of_lt _ _ (by omega)
  · exact Buffer.write_of_ge _ _ (by omega)

/-- The destination on the wire is no part of the buffer. -/
theorem setDest (p : BasePacket) (d : NodeId) : AgreeOutside lo hi p (p.setDest d) :=
  ⟨rfl, fun _ _ => rfl⟩

/-- The type of a packet is in its first byte. -/
theorem getType (h : AgreeOutside lo hi p q) (hlo : 0 < lo) : q.getType = p.getType := by
  rw [BasePacket.getType, BasePacket.getType, h.buffer 0 (.inl hlo)]

end AgreeOutside

/-! ### Routes of flood packets -/

section FloodRoute

variable {host : Host} {clock : Clock} {r r' : AwdsRouting} {p q : BasePacket}

/-- Some station gets `p` and `recv_flood` sends `q` on. -/
def FloodHop (p q : BasePacket) : Prop :=
  ∃ host clock r r', recvFlood host clock r p = .ok (r', some q)

/-- A hop of a topo packet changes `LastHop` and the TTL only. -/
theorem floodHop_agree (htype : p.getType = .flood)
    (htopo : Flood.getFloodType p = Flood.floodTypeTopo) (h : FloodHop p q) :
    AgreeOutside 9 16 p q := by
  obtain ⟨host, clock, r, r', h⟩ := h
  obtain ⟨-, p', hhandle, hrelay⟩ := recvFlood_sent h
  rw [setType_flood htype] at hhandle
  -- The signature of the packet was right, or there was no crypto unit.
  have hsame : p' = p := by
    unfold handleFlood at hhandle
    rw [if_pos htopo] at hhandle
    exact (handleTopo_keeps hhandle).1 rfl
  subst hsame
  obtain ⟨rfl, -⟩ := relayFlood_sent hrelay
  exact ⟨rfl, fun i hi => relayed_buffer_of_ne _ _ hi⟩

/-- A route of any length changes these fields only. -/
theorem floodRoute_agree (htype : p.getType = .flood)
    (htopo : Flood.getFloodType p = Flood.floodTypeTopo) (h : ReflTransGen FloodHop p q) :
    AgreeOutside 9 16 p q := by
  induction h with
  | refl => exact .refl p
  | tail _ hhop ih =>
    refine ih.trans (floodHop_agree ((ih.getType (by decide)).trans htype) ?_ hhop)
    rw [Flood.getFloodType, ih.buffer Flood.offsetFloodType (.inr (by decide))]
    exact htopo

/-! ### Signed topo packets -/

/-- The links lie behind the header. -/
theorem writeLinks_of_lt {nds : List NodeDescr} {n n' : UInt8} {addr addr' : Nat}
    (haddr : 17 ≤ addr) (h : r.writeLinks host nds n addr p = .ok (n', addr', q)) :
    17 ≤ addr' ∧ ∀ i < 17, q.buffer i = p.buffer i := by
  induction nds generalizing n addr p with
  | nil =>
    cases h
    exact ⟨haddr, fun _ _ => rfl⟩
  | cons nd nds ih =>
    rw [writeLinks] at h
    obtain ⟨good, hgood, h⟩ := bind_eq_ok.mp h
    split at h
    · obtain ⟨haddr', hkeep⟩ := ih (Nat.le_trans haddr (Nat.le_add_right _ _)) h
      refine ⟨haddr', fun i hi => ?_⟩
      rw [hkeep i hi]
      exact Buffer.write_of_lt _ _ (Nat.lt_of_lt_of_le hi haddr)
    · exact ih haddr h

/-- `setNeigh` keeps the header and leaves a packet that is longer than it. -/
theorem setNeigh_of_lt (h : r.setNeigh host p = .ok q) :
    17 ≤ q.size ∧ ∀ i < 17, q.buffer i = p.buffer i := by
  obtain ⟨⟨n, addr, p1⟩, hlinks, h⟩ := bind_eq_ok.mp h
  obtain ⟨haddr, hkeep⟩ := writeLinks_of_lt (by decide) hlinks
  cases h
  constructor
  · show 17 ≤ 22 + _ * _ + _ + 1
    omega
  · intro i hi
    rw [← hkeep i hi]
    simp only [BasePacket.write_buffer]
    rw [Buffer.write_of_lt _ _ (Nat.lt_of_lt_of_le hi (by decide)),
      Buffer.write_of_lt _ _ (by omega), Buffer.write_of_lt _ _ (by omega)]

/-- A new flood packet has the type of a flood packet. -/
theorem newFloodPacket_type (host : Host) (r : AwdsRouting) (ft : Nat) :
    (r.newFloodPacket host ft).2.getType = .flood := by
  show (SrcPacket.setSeq (Flood.setTTL (Flood.setFloodType (Flood.setLastHop (SrcPacket.setSrc
    (BasePacket.new.setType .flood) host.myNodeId) host.myNodeId) ft) 32)
    r.floodSeq.toNat).getType = .flood
  unfold SrcPacket.setSeq Flood.setTTL Flood.setFloodType Flood.setLastHop SrcPacket.setSrc
  rw [getType_write _ _ (by decide), getType_write _ _ (by decide),
    getType_write _ _ (by decide), getType_write _ _ (by decide),
    getType_write _ _ (by decide), getType_setType]

/-- A new flood packet has the flood type it was created with. -/
theorem newFloodPacket_floodType (host : Host) (r : AwdsRouting) (ft : Nat) :
    (r.newFloodPacket host ft).2.buffer Flood.offsetFloodType = UInt8.ofNat ft := by
  show (SrcPacket.setSeq (Flood.setTTL (Flood.setFloodType (Flood.setLastHop (SrcPacket.setSrc
    (BasePacket.new.setType .flood) host.myNodeId) host.myNodeId) ft) 32)
    r.floodSeq.toNat).buffer 16 = UInt8.ofNat ft
  unfold SrcPacket.setSeq Flood.setTTL Flood.setFloodType
  simp only [BasePacket.write_buffer]
  rw [Buffer.write_of_ge _ _ (by rw [length_toBigEndian]; decide),
    Buffer.write_of_ge _ _ (by decide)]
  exact Buffer.write_at _ [UInt8.ofNat ft] 16 0 Nat.one_pos

/-- The packet that `send_topo` signs is a topo packet. -/
theorem unsignedTopo_spec (h : r.unsignedTopo host = .ok (r', p)) :
    p.getType = .flood ∧ Flood.getFloodType p = Flood.floodTypeTopo ∧ 17 ≤ p.size ∧
      r'.cryptoUnit = r.cryptoUnit := by
  obtain ⟨p1, hneigh, h⟩ := bind_eq_ok.mp h
  obtain ⟨period, -, h⟩ := bind_eq_ok.mp h
  cases h
  obtain ⟨hsize, hkeep⟩ := setNeigh_of_lt hneigh
  -- The header is that of the new packet.
  have hbyte : ∀ i < 17, (TopoPacket.setValidity p1 ((3 * period) % 2 ^ 32).toNat).buffer i
      = (r.newFloodPacket host Flood.floodTypeTopo).2.buffer i := fun i hi =>
    (Buffer.write_of_lt _ _ hi).trans (hkeep i hi)
  refine ⟨?_, ?_, hsize, rfl⟩
  · rw [BasePacket.getType, hbyte 0 (by decide)]
    exact newFloodPacket_type host r _
  · rw [Flood.getFloodType, hbyte Flood.offsetFloodType (by decide), newFloodPacket_floodType]
    rfl

/-- `signTopo` keeps the bytes that it signs. -/
theorem signTopo_spec {cu : AesCcmCryptoUnit} (hcu : r.cryptoUnit = some cu) (p : BasePacket) :
    (r.signTopo host p).2 = { p with
      buffer := (cu.sign host.ccm p.buffer p.size noSign).2, size := p.size + cryptoLen } := by
  unfold signTopo
  rw [hcu]

/-- A topo packet that was signed by `send_topo` and has come any way is verified with the
input it was signed with. -/
theorem topo_route {cu cu' : AesCcmCryptoUnit} (hcu : r.cryptoUnit = some cu)
    (hunsigned : r.unsignedTopo host = .ok (r', p)) (hkey : cu'.key = cu.key)
    (hroute : ReflTransGen FloodHop
      (Flood.incTTL ((r'.signTopo host p).2.setType .flood)) q) :
    q.size - cryptoLen = p.size ∧
      verifyInput cu' q.buffer (q.size - cryptoLen) noSign
        = signInput cu p.buffer p.size noSign := by
  obtain ⟨htype, htopo, hsize, hunit⟩ := unsignedTopo_spec hunsigned
  have hsigned : (r'.signTopo host p).2 = { p with
      buffer := (cu.sign host.ccm p.buffer p.size noSign).2, size := p.size + cryptoLen } :=
    signTopo_spec (hunit.trans hcu) p
  generalize (r'.signTopo host p).2 = sp at hsigned hroute
  -- The header of the signed packet is that of the unsigned one.
  have hheader : ∀ i < 17, sp.buffer i = p.buffer i := by
    intro i hi
    rw [hsigned]
    exact sign_of_lt pairwise_noSign (by omega)
  have hsptype : sp.getType = .flood := by
    rw [← htype, BasePacket.getType, BasePacket.getType, hheader 0 (by decide)]
  have hsptopo : Flood.getFloodType sp = Flood.floodTypeTopo := by
    rw [← htopo, Flood.getFloodType, Flood.getFloodType, hheader _ (by decide)]
  rw [setType_flood hsptype] at hroute
  have hfirst : AgreeOutside 9 16 sp (Flood.incTTL sp) := .write sp (by decide) (Nat.le_refl 16)
  have hagree := hfirst.trans (floodRoute_agree ((hfirst.getType (by decide)).trans hsptype)
    (by rw [Flood.getFloodType, hfirst.buffer _ (.inr (by decide))]; exact hsptopo) hroute)
  have hlen : q.size - cryptoLen = p.size := by
    rw [hagree.size, hsigned]
    exact Nat.add_sub_cancel _ _
  refine ⟨hlen, ?_⟩
  have hinput : verifyInput cu' q.buffer p.size noSign
      = verifyInput cu' sp.buffer p.size noSign := by
    refine verifyInput_congr rfl fun i _ hi => hagree.buffer i ?_
    rw [covers_noSign] at hi
    omega
  have hbuffer : sp.buffer = (cu.sign host.ccm p.buffer p.size noSign).2 := by rw [hsigned]
  rw [hlen, hinput, hbuffer]
  exact verifyInput_sign hkey pairwise_noSign

end FloodRoute

/-! ### Routes of unicast packets -/

section UnicastRoute

variable {host : Host} {clock : Clock} {r r' : AwdsRouting} {p q s : BasePacket}

/-- Some station gets `p` and `recv_unicast` sends `q` to the next hop. -/
def UnicastHop (p q : BasePacket) : Prop :=
  ∃ host clock r r', recvUnicast host clock r p = .ok (r', .send q)

/-- Some station gets `p` and `recv_unicast` gives `q` to the handler. -/
def UnicastDelivery (p q : BasePacket) : Prop :=
  ∃ host clock r r', recvUnicast host clock r p = .ok (r', .deliver q)

/-- The first byte of a unicast packet without control bits. -/
def PlainUnicast (p : BasePacket) : Prop := p.buffer 0 = 2

/-- It is left alone by the access class. -/
theorem PlainUnicast.setType (h : PlainUnicast p) : p.setType .unicast = p := by
  have htype : p.getType = .unicast := by
    rw [BasePacket.getType, h]
    rfl
  rw [← htype, BasePacket.setType_getType]

/-- A packet without a trace flag changes in `NextHop` and the TTL only, whether it is sent on
or delivered. -/
theorem recvUnicast_agree {action : UnicastAction} (hplain : PlainUnicast p)
    (h : r.recvUnicast host clock p = .ok (r', action)) (hq : action = .send q ∨
      action = .deliver q) : AgreeOutside 15 22 p q := by
  have hdecr : AgreeOutside 15 22 p (UnicastPacket.decrTTL p) :=
    .write p (by decide) (Nat.le_refl 22)
  -- With the trace flag every station would append its address.
  have htrace : SrcPacket.getTraceFlag (UnicastPacket.decrTTL p) = false := by
    show decide (_ ≠ _) = false
    rw [hdecr.buffer 0 (.inl (by decide)), hplain]
    rfl
  unfold recvUnicast at h
  simp only [hplain.setType, htrace, Bool.false_eq_true, if_false] at h
  split at h
  · cases h
    rcases hq with hq | hq <;> cases hq
  split at h
  · cases h
    rcases hq with hq | hq <;> cases hq
  split at h
  · -- The packet has arrived.
    cases h
    rcases hq with hq | hq
    · cases hq
    · cases hq
      exact hdecr
  · obtain ⟨⟨t, nextHop, found⟩, hhop, h⟩ := bind_eq_ok.mp h
    simp only at h
    split at h
    · cases h
      rcases hq with hq | hq <;> cases hq
    · cases h
      rcases hq with hq | hq
      · cases hq
        have hnext : AgreeOutside 15 22 (UnicastPacket.decrTTL p)
            (UnicastPacket.setNextHop (UnicastPacket.decrTTL p) nextHop) :=
          .write _ (Nat.le_refl 15) (by rw [NodeId.length_toArray]; decide)
        exact hdecr.trans (hnext.trans (.setDest _ _))
      · cases hq

/-- A packet without a trace flag stays one. -/
theorem AgreeOutside.plainUnicast (h : AgreeOutside 15 22 p q) (hplain : PlainUnicast p) :
    PlainUnicast q := (h.buffer 0 (.inl (by decide))).trans hplain

/-- A route of any length and the delivery change these fields only. -/
theorem unicastRoute_agree (hplain : PlainUnicast p) (h : ReflTransGen UnicastHop p s)
    (hq : UnicastDelivery s q) : AgreeOutside 15 22 p q := by
  have hroute : AgreeOutside 15 22 p s := by
    clear hq
    induction h with
    | refl => exact .refl p
    | tail _ hhop ih =>
      obtain ⟨host, clock, r, r', hrun⟩ := hhop
      exact ih.trans (recvUnicast_agree (ih.plainUnicast hplain) hrun (.inl rfl))
  obtain ⟨host, clock, r, r', hrun⟩ := hq
  exact hroute.trans (recvUnicast_agree (hroute.plainUnicast hplain) hrun (.inr rfl))

/-! ### Encrypted frames -/

/-- The first byte of a new unicast packet. -/
theorem plainUnicast_newUnicastPacket (host : Host) (r : AwdsRouting) (type : Nat) :
    PlainUnicast (r.newUnicastPacket host type).2 := by
  show (UnicastPacket.setUcPacketType (SrcPacket.setSeq (UnicastPacket.setTTL
    (UnicastPacket.setNextHop (SrcPacket.setSrc (SrcPacket.setTraceFlag
      (BasePacket.new.setType .unicast) false) host.myNodeId) host.myNodeId) 32)
    r.unicastSeq.toNat) type).buffer 0 = 2
  unfold UnicastPacket.setUcPacketType SrcPacket.setSeq UnicastPacket.setTTL
    UnicastPacket.setNextHop SrcPacket.setSrc
  simp only [BasePacket.write_buffer]
  rw [Buffer.write_of_lt _ _ (by decide), Buffer.write_of_lt _ _ (by decide),
    Buffer.write_of_lt _ _ (by decide), Buffer.write_of_lt _ _ (by decide),
    Buffer.write_of_lt _ _ (by decide)]
  rfl

/-- The packet around a frame has no control bits, and it holds the frame. -/
theorem plainFrame_spec (host : Host) (r : AwdsRouting) (frame : List UInt8) (dest : NodeId) :
    PlainUnicast (r.plainFrame host frame dest).2 ∧
      (r.plainFrame host frame dest).2.size = 23 + frame.length ∧
      (r.plainFrame host frame dest).2.buffer.read 23 frame.length = frame := by
  have hnew := plainUnicast_newUnicastPacket host r TapInterface.protoNr
  refine ⟨?_, rfl, Buffer.read_write_self _ _ _⟩
  show (((r.newUnicastPacket host TapInterface.protoNr).2.setType .unicast).buffer.write 9
    dest.toArray).write 23 frame 0 = 2
  rw [hnew.setType, Buffer.write_of_lt _ _ (by decide), Buffer.write_of_lt _ _ (by decide)]
  exact hnew

/-- The bytes in front of a frame are not encrypted. -/
theorem encryptFrame_header {off len : Nat} {sg : List MemoryBlock}
    (h : r.encryptFrame host p off len sg = .ok (r', q)) {i : Nat} (hi : i < off) :
    q.buffer i = p.buffer i := by
  unfold encryptFrame at h
  split at h
  · cases h
    rfl
  · obtain ⟨⟨cu, buf⟩, henc, h⟩ := bind_eq_ok.mp h
    cases h
    show buf i = p.buffer i
    rw [encrypt_buffer henc (.inl hi)]
    exact storeNonce_of_not_covers (.inl (by omega))

/-- The blocks that are authenticated lie in the header. -/
theorem unicastExtraSign_le : ∀ b ∈ unicastExtraSign, b.p + b.size ≤ 23 := by decide

/-- The blocks that are authenticated lie outside of the fields that are rewritten. -/
theorem covers_unicastExtraSign {i : Nat} (h : ∃ b ∈ unicastExtraSign, Covers b i) :
    i < 15 ∨ 22 ≤ i := by
  obtain ⟨b, hb, hlo, hhi⟩ := h
  simp only [unicastExtraSign, List.mem_cons, List.not_mem_nil, or_false] at hb
  rcases hb with rfl | rfl
  · exact .inl hhi
  · exact .inr hlo

/-- A frame that was encrypted by `tap_recv` and has come any way is decrypted with the input
it was encrypted with, and what is decrypted is what CCM has made of the frame. -/
theorem frame_route {cu : AesCcmCryptoUnit} (cu' : AesCcmCryptoUnit) {frame : List UInt8}
    {dest : NodeId} (hcu : r.cryptoUnit = some cu)
    (hframe : r.unicastFrame host frame dest = .ok (r', p))
    (hroute : ReflTransGen UnicastHop (UnicastPacket.setNextHop
      (UnicastPacket.incTTL (p.setType .unicast)) host.myNodeId) s)
    (hdelivery : UnicastDelivery s q) :
    q.size - (cryptoLen + UnicastPacket.unicastPacketEnd) = frame.length ∧
      let input := encryptInput cu (r.plainFrame host frame dest).2.buffer
        UnicastPacket.unicastPacketEnd frame.length unicastExtraSign
      cryptInput cu' q.buffer UnicastPacket.unicastPacketEnd
          (q.size - (cryptoLen + UnicastPacket.unicastPacketEnd)) unicastExtraSign
        = { input with key := cu'.key } ∧
      q.buffer.read UnicastPacket.unicastPacketEnd (frame.length + 16)
        = host.ccm.encrypt input.key input.nonce input.auth frame := by
  obtain ⟨hplain, hsize, hread⟩ := plainFrame_spec host r frame dest
  have hrun : encryptFrame host (r.plainFrame host frame dest).1
      (r.plainFrame host frame dest).2 23 frame.length unicastExtraSign = .ok (r', p) := hframe
  have hunit : (r.plainFrame host frame dest).1.cryptoUnit = some cu := hcu
  generalize (r.plainFrame host frame dest).1 = r0 at hrun hunit
  generalize (r.plainFrame host frame dest).2 = p0 at hrun hplain hsize hread ⊢
  have hkept : ∀ i < 23, p.buffer i = p0.buffer i := fun i hi => encryptFrame_header hrun hi
  unfold encryptFrame at hrun
  rw [hunit] at hrun
  obtain ⟨⟨cu1, buf⟩, henc, hrun⟩ := bind_eq_ok.mp hrun
  cases hrun
  have hheader : ∀ i < 23, buf i = p0.buffer i := hkept
  generalize hp : ({ p0 with buffer := buf, size := p0.size + cryptoLen } : BasePacket) = p
    at hroute
  have hbuf : p.buffer = buf := by rw [← hp]
  have hplain' : PlainUnicast p := by
    show p.buffer 0 = 2
    rw [hbuf, hheader 0 (by decide)]
    exact hplain
  rw [hplain'.setType] at hroute
  -- What `sendUnicast` writes are the fields that are rewritten anyway.
  have hincr : AgreeOutside 15 22 p (UnicastPacket.incTTL p) :=
    .write p (by decide) (Nat.le_refl 22)
  have hfirst : AgreeOutside 15 22 p
      (UnicastPacket.setNextHop (UnicastPacket.incTTL p) host.myNodeId) :=
    hincr.trans (.write _ (Nat.le_refl 15) (by rw [NodeId.length_toArray]; decide))
  have hagree := hfirst.trans
    (unicastRoute_agree (hfirst.plainUnicast hplain') hroute hdelivery)
  have hlen : q.size - (cryptoLen + UnicastPacket.unicastPacketEnd) = frame.length := by
    rw [hagree.size, ← hp]
    show p0.size + 32 - (32 + 23) = frame.length
    omega
  refine ⟨hlen, ?_, ?_⟩
  · have hinput : cryptInput cu' q.buffer 23 frame.length unicastExtraSign
        = cryptInput cu' buf 23 frame.length unicastExtraSign := by
      rw [← hbuf]
      exact cryptInput_congr rfl unicastExtraSign_le
        (fun i hlo _ => hagree.buffer i (.inr (by omega)))
        (fun i hi => hagree.buffer i (covers_unicastExtraSign hi))
    have henc' : cryptInput cu buf 23 frame.length unicastExtraSign
        = encryptInput cu p0.buffer 23 frame.length unicastExtraSign :=
      cryptInput_encrypt henc rfl unicastExtraSign_le
    rw [hlen]
    refine hinput.trans ?_
    show cryptInput cu' buf 23 frame.length unicastExtraSign
      = { encryptInput cu p0.buffer 23 frame.length unicastExtraSign with key := cu'.key }
    rw [← henc']
    rfl
  · have hcipher := encrypt_cipherText henc (by decide)
    rw [hread] at hcipher
    refine Eq.trans ?_ hcipher
    rw [← hbuf]
    exact Buffer.read_congr fun i hlo _ => hagree.buffer i (.inr (Nat.le_trans (by decide) hlo))

end UnicastRoute

/-- Authentication survives forwarding: a signed topo packet is verified and an encrypted
frame is decrypted with the input that was used at its source, and signatures leave the
signed bytes alone. -/
theorem authentication_survives (host : Host) (r r' : AwdsRouting) (cu cu' : AesCcmCryptoUnit)
    (hcu : r.cryptoUnit = some cu) (hkey : cu'.key = cu.key) :
    (∀ p q, r.unsignedTopo host = .ok (r', p) →
      ReflTransGen FloodHop (Flood.incTTL ((r'.signTopo host p).2.setType .flood)) q →
      q.size - cryptoLen = p.size ∧
        verifyInput cu' q.buffer (q.size - cryptoLen) noSign
          = signInput cu p.buffer p.size noSign) ∧
    (∀ frame dest p s q, r.unicastFrame host frame dest = .ok (r', p) →
      ReflTransGen UnicastHop (UnicastPacket.setNextHop
        (UnicastPacket.incTTL (p.setType .unicast)) host.myNodeId) s →
      UnicastDelivery s q →
      q.size - (cryptoLen + UnicastPacket.unicastPacketEnd) = frame.length ∧
        let input := encryptInput cu (r.plainFrame host frame dest).2.buffer
          UnicastPacket.unicastPacketEnd frame.length unicastExtraSign
        cryptInput cu' q.buffer UnicastPacket.unicastPacketEnd
            (q.size - (cryptoLen + UnicastPacket.unicastPacketEnd)) unicastExtraSign = input ∧
          q.buffer.read UnicastPacket.unicastPacketEnd (frame.length + 16)
            = host.ccm.encrypt input.key input.nonce input.auth frame) ∧
    ∀ src buf len sg, sg.Pairwise DisjointBlocks → (∀ b ∈ sg, b.p + b.size ≤ len) →
      ∀ i < len, (cu.sign host.ccm buf len sg).2 i = buf i ∧
        (cu.verifySignature host.ccm src buf len sg).2.1 i = buf i := by
  refine ⟨fun p q hunsigned hroute => topo_route hcu hunsigned hkey hroute, ?_, ?_⟩
  · -- What the two sides put into the cipher is the same along the way.
    intro frame dest p s q hframe hroute hdelivery
    obtain ⟨hlen, hinput, hcipher⟩ := frame_route cu' hcu hframe hroute hdelivery
    refine ⟨hlen, hinput.trans ?_, hcipher⟩
    rw [hkey]
    rfl
  · -- Signing and verifying leave the bytes of the packet.
    intro src buf len sg hsg _ i hi
    exact ⟨sign_of_lt hsg hi, verifySignature_of_lt hsg (by omega)⟩

/-- The station 1 with a crypto unit and a route to the station 2. -/
def sealingRouting : AwdsRouting :=
  { pairRouting false with
    cryptoUnit := some ⟨List.replicate 16 7, List.replicate 16 9, 0, ∅⟩
    topology := { (pairRouting false).topology with
      adjList := (pairRouting false).topology.adjList.insert 2 { nextHop := 2, distance := 1 }
      dirty := false } }

/-- The packet that an action sends. -/
def packetSent : UnicastAction → Option BasePacket
  | .send s => some s
  | _ => none

/-- The packet that an action hands to the interface. -/
def packetDelivered : UnicastAction → Option BasePacket
  | .deliver q => some q
  | _ => none

/-- A packet is sent by `send` only. -/
theorem eq_send_of_packetSent {action : UnicastAction} {s : BasePacket}
    (h : packetSent action = some s) : action = .send s := by
  cases action with
  | send s' => exact congrArg _ (Option.some.inj h)
  | _ => cases h

/-- A packet is delivered by `deliver` only. -/
theorem eq_deliver_of_packetDelivered {action : UnicastAction} {q : BasePacket}
    (h : packetDelivered action = some q) : action = .deliver q := by
  cases action with
  | deliver q' => exact congrArg _ (Option.some.inj h)
  | _ => cases h

/-- The station 2 passes on a topo packet of the station 1, and it gets a frame from it. -/
theorem authentication_survives_pair :
    (∃ r' p q, sealingRouting.unsignedTopo (pairHosts false) = .ok (r', p) ∧
      FloodHop (Flood.incTTL ((r'.signTopo (pairHosts false) p).2.setType .flood)) q ∧
      q.size - cryptoLen = p.size) ∧
    ∃ r' p s q, sealingRouting.unicastFrame (pairHosts false) [1, 2, 3] 2 = .ok (r', p) ∧
      UnicastHop (UnicastPacket.setNextHop (UnicastPacket.incTTL (p.setType .unicast))
        (pairHosts false).myNodeId) s ∧
      UnicastDelivery s q ∧
      q.size - (cryptoLen + UnicastPacket.unicastPacketEnd) = 3 := by
  constructor
  · -- The own topology, heard by one neighbour.
    obtain ⟨⟨r', p⟩, hunsigned, htest⟩ := exists_of_test
      (sealingRouting.unsignedTopo (pairHosts false))
      (fun out => returnsWith (recvFlood (pairHosts true) ⟨0, 0⟩ (pairRouting true)
        (Flood.incTTL ((out.1.signTopo (pairHosts false) out.2).2.setType .flood)))
          fun x => x.2.isSome) (by decide +kernel)
    obtain ⟨⟨r1, sent⟩, hsent, hsome⟩ := exists_of_returnsWith htest
    obtain ⟨q, rfl⟩ := Option.isSome_iff_exists.mp hsome
    have hhop : FloodHop (Flood.incTTL ((r'.signTopo (pairHosts false) p).2.setType .flood)) q :=
      ⟨_, _, _, _, hsent⟩
    exact ⟨r', p, q, hunsigned, hhop, ((authentication_survives (pairHosts false)
      sealingRouting r' _ _ rfl rfl).1 p q hunsigned (.single hhop)).1⟩
  · -- A frame that is relayed once and then delivered.
    obtain ⟨⟨r', p⟩, hframe, htest⟩ := exists_of_test
      (sealingRouting.unicastFrame (pairHosts false) [1, 2, 3] 2)
      (fun out => returnsWith (recvUnicast (pairHosts false) ⟨0, 0⟩ sealingRouting
        (UnicastPacket.setNextHop (UnicastPacket.incTTL (out.2.setType .unicast)) 1)) fun x =>
          (packetSent x.2).any fun s => returnsWith
            (recvUnicast (pairHosts true) ⟨0, 0⟩ (pairRouting true) s) fun y =>
              (packetDelivered y.2).isSome) (by decide +kernel)
    obtain ⟨⟨r1, first⟩, hfirst, hany⟩ := exists_of_returnsWith htest
    obtain ⟨s, hs, hnext⟩ := (Option.any_eq_true _ _).mp hany
    obtain ⟨⟨r2, second⟩, hsecond, hsome⟩ := exists_of_returnsWith hnext
    obtain ⟨q, hq⟩ := Option.isSome_iff_exists.mp hsome
    obtain rfl := eq_send_of_packetSent hs
    obtain rfl := eq_deliver_of_packetDelivered hq
    have hhop : UnicastHop (UnicastPacket.setNextHop
        (UnicastPacket.incTTL (p.setType .unicast)) (pairHosts false).myNodeId) s :=
      ⟨_, _, _, _, hfirst⟩
    have hdelivery : UnicastDelivery s q := ⟨_, _, _, _, hsecond⟩
    exact ⟨r', p, s, q, hframe, hhop, hdelivery, ((authentication_survives (pairHosts false)
      sealingRouting r' _ _ rfl rfl).2.1 [1, 2, 3] 2 p s q hframe (.single hhop) hdelivery).1⟩

end Awds.Proofs
