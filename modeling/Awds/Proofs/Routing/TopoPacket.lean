import Awds.Proofs.Routing.Authentication
import Awds.Proofs.Routing.Neighbors
import Awds.Proofs.Topology.Acceptance

/-!
# `Awds.Proofs.Routing.TopoPacket`: a topo packet and its receivers

`send_topo` writes the neighbours of a station into a packet, and `feed` reads them. The two
functions agree on the layout: `Encodes` states it in terms of the bytes of the packet. The
sender side is `makeTopo_encodes`, with or without a signature, and the receiver side is
`Encodes.wellFormed`, `Encodes.packetLinks_shape` and `Encodes.packetName_eq`.

So no topo packet fails a check of `feed`, and what a receiver stores is what the sender has
announced (`topo_accepted_iff`). A receiver may still end in the computation of the routes.
While it is locked it drops its own topo packets, and its own node expires. The first packet
with news after that makes the cleanup drop the own node, and `calcRoutes` asserts that it
is there.
-/

set_option autoImplicit false

namespace Awds.Proofs

open Awds.Lib Awds.AwdsRouting Awds.RTopology

/-! ### The links of a station -/

/-- Whether `setNeigh` writes a neighbour. A search that fails ends the daemon. -/
def bidiGood (myId : NodeId) (nd : NodeDescr) : Bool :=
  match nd.isBidiGood myId with
  | .ok good => good
  | .error _ => false

/-- The links that a station announces: its bidirectionally good neighbours with the
qualities of its metric. -/
def announced (host : Host) (r : AwdsRouting) : List (NodeId × UInt16) :=
  (r.neighbors.filter (bidiGood host.myNodeId)).map fun nd => (nd.id, r.getQuality nd)

/-- The bytes of one link. -/
def bytesOf (l : NodeId × UInt16) : List UInt8 := l.1.toArray ++ toBigEndian 2 l.2.toNat

/-- A link takes eight bytes. -/
theorem length_bytesOf (l : NodeId × UInt16) : (bytesOf l).length = 8 := by
  simp [bytesOf]

/-- All links together take eight bytes for each. -/
theorem length_flatMap_bytesOf (ls : List (NodeId × UInt16)) :
    (ls.flatMap bytesOf).length = 8 * ls.length := by
  induction ls with
  | nil => rfl
  | cons l ls ih =>
    rw [List.flatMap_cons, List.length_append, length_bytesOf, ih, List.length_cons]
    omega

/-- No quality that is announced is 0. -/
theorem getQuality_ne_zero (r : AwdsRouting) (nd : NodeDescr) : r.getQuality nd ≠ 0 := by
  simp only [getQuality]
  split
  · decide
  · rename_i hq
    exact fun h0 => hq (by rw [h0]; decide)

section
variable {host : Host} {r : AwdsRouting}

/-- The station announces its neighbours in the order of its list. -/
theorem announced_ascending (h : Ascending NodeDescr.id r.neighbors) :
    (announced host r).Pairwise fun a b => a.1 < b.1 :=
  List.pairwise_map.mpr (h.filter _)

/-- `getQuality` never gives the quality 0, which stands for no link. -/
theorem announced_quality : ∀ l ∈ announced host r, l.2 ≠ 0 := by
  intro l hl
  obtain ⟨nd, -, rfl⟩ := List.mem_map.mp hl
  exact getQuality_ne_zero r nd

/-- It announces no more than its neighbours. -/
theorem length_announced_le : (announced host r).length ≤ r.neighbors.length := by
  rw [announced, List.length_map]
  exact List.length_filter_le _ _

end

/-! ### The layout of a packet -/

/-- The packet says that `src` has the name `name` and, for `validity` milliseconds, the
links `links`. -/
structure Encodes (p : BasePacket) (src : NodeId) (validity : Nat)
    (links : List (NodeId × UInt16)) (name : List UInt8) : Prop where
  source : p.buffer.read SrcPacket.offsetSrc NodeId.size = src.toArray
  validity : p.buffer.read TopoPacket.offsetValidity 4 = toBigEndian 4 validity
  numLinks : TopoPacket.getNumLinks p = links.length
  body : p.buffer.read TopoPacket.offsetLinks (8 * links.length + (1 + name.length))
    = links.flatMap bytesOf ++ ([UInt8.ofNat name.length] ++ name)
  size : TopoPacket.offsetLinks + 8 * links.length + (1 + name.length) ≤ p.size

/-- The loop of `setNeigh` writes the links one behind the other. -/
theorem writeLinks_eq {host : Host} {r : AwdsRouting} {nds : List NodeDescr} {n n' : UInt8}
    {addr addr' : Nat} {p q : BasePacket}
    (h : r.writeLinks host nds n addr p = .ok (n', addr', q)) :
    q = p.write addr ((nds.filter (bidiGood host.myNodeId)).flatMap r.linkBytes) ∧
      n' = n + UInt8.ofNat (nds.filter (bidiGood host.myNodeId)).length ∧
      addr' = addr + 8 * (nds.filter (bidiGood host.myNodeId)).length := by
  induction nds generalizing n addr p with
  | nil =>
    cases h
    simp [BasePacket.write]
  | cons nd nds ih =>
    rw [writeLinks] at h
    obtain ⟨good, hgood, h⟩ := bind_eq_ok.mp h
    have hbidi : bidiGood host.myNodeId nd = good := by rw [bidiGood, hgood]
    -- A link that is good in both directions is written.
    cases good with
    | true =>
      obtain ⟨hq, hn, haddr⟩ := ih h
      rw [List.filter_cons_of_pos hbidi, List.flatMap_cons, List.length_cons]
      refine ⟨?_, ?_, ?_⟩
      · -- The links that follow begin where the bytes of this one end.
        rw [hq]
        have hlen : (r.linkBytes nd).length = TopoPacket.linkSize := by simp [linkBytes]
        simp only [BasePacket.write, ← hlen, Buffer.write_write_append]
      · rw [hn, Nat.add_comm, UInt8.ofNat_add, UInt8.add_assoc]
        rfl
      · rw [haddr]
        show addr + 8 + _ = _
        omega
    -- Any other is passed over.
    | false =>
      rw [List.filter_cons_of_neg (by simp [hbidi])]
      exact ih h

/-- A byte of a new flood packet in front of the sequence number is that of its source. -/
theorem newFloodPacket_source (host : Host) (r : AwdsRouting) (ft : Nat) :
    (r.newFloodPacket host ft).2.buffer.read SrcPacket.offsetSrc NodeId.size
      = host.myNodeId.toArray := by
  show (SrcPacket.setSeq (Flood.setTTL (Flood.setFloodType (Flood.setLastHop (SrcPacket.setSrc
    (BasePacket.new.setType .flood) host.myNodeId) host.myNodeId) ft) 32)
    r.floodSeq.toNat).buffer.read 1 6 = _
  unfold SrcPacket.setSeq Flood.setTTL Flood.setFloodType Flood.setLastHop SrcPacket.setSrc
  simp only [BasePacket.write_buffer]
  rw [Buffer.read_write_disjoint _ _ (.inl (by decide)),
    Buffer.read_write_disjoint _ _ (.inl (by decide)),
    Buffer.read_write_disjoint _ _ (.inl (by decide)),
    Buffer.read_write_disjoint _ _ (.inl (by decide))]
  exact Buffer.read_write_self _ 1 host.myNodeId.toArray

section
variable {host : Host} {r r' : AwdsRouting} {p q : BasePacket}

/-- What `setNeigh` writes behind the header, and what it leaves alone. -/
theorem setNeigh_body (hname : r.nodeName.length ≤ 32) (hlen : r.neighbors.length ≤ 255)
    (h : r.setNeigh host p = .ok q) :
    TopoPacket.getNumLinks q = (announced host r).length ∧
      q.buffer.read TopoPacket.offsetLinks
          (8 * (announced host r).length + (1 + r.nodeName.length))
        = (announced host r).flatMap bytesOf ++ ([UInt8.ofNat r.nodeName.length] ++ r.nodeName) ∧
      q.size = TopoPacket.offsetLinks + 8 * (announced host r).length +
        (1 + r.nodeName.length) := by
  obtain ⟨⟨n, addr, p1⟩, hlinks, h⟩ := bind_eq_ok.mp h
  obtain ⟨rfl, hn, rfl⟩ := writeLinks_eq hlinks
  cases h
  have hbytes : (r.neighbors.filter (bidiGood host.myNodeId)).flatMap r.linkBytes
      = (announced host r).flatMap bytesOf := by
    rw [announced, List.flatMap_map]
    rfl
  have hcount : (r.neighbors.filter (bidiGood host.myNodeId)).length
      = (announced host r).length := by rw [announced, List.length_map]
  -- The number of links is a byte. It does not run around with at most 255 neighbours.
  have hfits : (announced host r).length ≤ 255 := length_announced_le.trans hlen
  have hnum : n.toNat = (announced host r).length := by
    rw [hn, hcount, UInt8.zero_add, UInt8.toNat_ofNat']
    exact Nat.mod_eq_of_lt (by omega)
  rw [min_eq_left hname, List.take_length]
  refine ⟨?_, ?_, ?_⟩
  · have hbyte : ∀ buf : Buffer,
        buf.write TopoPacket.offsetNumLinks [n] TopoPacket.offsetNumLinks = n :=
      fun buf => Buffer.write_at buf [n] TopoPacket.offsetNumLinks 0 Nat.one_pos
    simp only [TopoPacket.getNumLinks, BasePacket.write_buffer, hbyte, hnum]
  · -- The three writes behind the header are one.
    have hjoin : ((p.buffer.write TopoPacket.offsetLinks ((announced host r).flatMap bytesOf)).write
        (TopoPacket.offsetLinks + 8 * (announced host r).length)
          [UInt8.ofNat r.nodeName.length]).write
        (TopoPacket.offsetLinks + 8 * (announced host r).length + 1) r.nodeName
        = p.buffer.write TopoPacket.offsetLinks ((announced host r).flatMap bytesOf ++
          ([UInt8.ofNat r.nodeName.length] ++ r.nodeName)) := by
      rw [← length_flatMap_bytesOf, ← Buffer.write_write_append, ← Buffer.write_write_append]
      rfl
    simp only [BasePacket.write_buffer, hbytes, hcount, hjoin]
    rw [Buffer.read_write_disjoint _ _ (.inr (Nat.le_refl 22))]
    have hself := Buffer.read_write_self p.buffer TopoPacket.offsetLinks
      ((announced host r).flatMap bytesOf ++ ([UInt8.ofNat r.nodeName.length] ++ r.nodeName))
    rwa [List.length_append, length_flatMap_bytesOf, List.length_append,
      List.length_singleton] at hself
  · show 22 + 8 * n.toNat + _ + 1 = 22 + _ + _
    rw [hnum]
    omega

/-- The content of a packet lies in front of its end. -/
theorem Encodes.of_agree {src : NodeId} {validity : Nat} {links : List (NodeId × UInt16)}
    {name : List UInt8} (h : Encodes p src validity links name) (hsize : p.size ≤ q.size)
    (hagree : ∀ i < p.size, q.buffer i = p.buffer i) : Encodes q src validity links name := by
  have hend : 22 + 8 * links.length + (1 + name.length) ≤ p.size := h.size
  have hread : ∀ off n, off + n ≤ p.size → q.buffer.read off n = p.buffer.read off n :=
    fun off n hn => Buffer.read_congr fun i _ hi => hagree i (by omega)
  refine ⟨?_, ?_, ?_, ?_, h.size.trans hsize⟩
  · exact (hread 1 6 (by omega)).trans h.source
  · exact (hread 17 4 (by omega)).trans h.validity
  · exact (congrArg UInt8.toNat (hagree 21 (by omega))).trans h.numLinks
  · exact (hread 22 _ (by omega)).trans h.body

/-- The packet in front of the signature. -/
theorem unsignedTopo_encodes (hname : r.nodeName.length ≤ 32) (hlen : r.neighbors.length ≤ 255)
    (h : r.unsignedTopo host = .ok (r', p)) :
    Encodes p host.myNodeId ((3 * r'.topoPeriodMs) % 2 ^ 32).toNat (announced host r)
      r.nodeName := by
  obtain ⟨p1, hneigh, h⟩ := bind_eq_ok.mp h
  obtain ⟨period, -, h⟩ := bind_eq_ok.mp h
  cases h
  obtain ⟨hnum, hbody, hsize⟩ := setNeigh_body (by exact hname) (by exact hlen) hneigh
  have hkeep := (setNeigh_of_lt hneigh).2
  unfold TopoPacket.setValidity
  refine ⟨?_, ?_, ?_, ?_, hsize.ge⟩
  · rw [BasePacket.write_buffer, Buffer.read_write_disjoint _ _ (.inl (by decide))]
    refine Eq.trans ?_ (newFloodPacket_source host r Flood.floodTypeTopo)
    exact Buffer.read_congr fun i _ hi => hkeep i (Nat.lt_trans hi (by decide))
  · have hself := Buffer.read_write_self p1.buffer TopoPacket.offsetValidity
      (toBigEndian 4 ((3 * period) % 2 ^ 32).toNat)
    rwa [length_toBigEndian] at hself
  · refine Eq.trans ?_ hnum
    rw [TopoPacket.getNumLinks, TopoPacket.getNumLinks, BasePacket.write_buffer,
      Buffer.write_of_ge _ _ (by rw [length_toBigEndian])]
  · rw [BasePacket.write_buffer, Buffer.read_write_disjoint _ _
      (.inr (by rw [length_toBigEndian]; decide))]
    exact hbody

/-- The packet that `send_topo` hands to `sendBroadcast`, with a signature or without. -/
theorem makeTopo_encodes (hname : r.nodeName.length ≤ 32) (hlen : r.neighbors.length ≤ 255)
    (h : r.makeTopo host = .ok (r', p)) :
    Encodes p host.myNodeId ((3 * r'.topoPeriodMs) % 2 ^ 32).toNat (announced host r)
      r.nodeName := by
  obtain ⟨⟨r1, p1⟩, hunsigned, h⟩ := bind_eq_ok.mp h
  have henc := unsignedTopo_encodes hname hlen hunsigned
  simp only [Except.ok.injEq, signTopo] at h
  cases hcu : r1.cryptoUnit with
  | none =>
    rw [hcu] at h
    cases h
    exact henc
  | some cu =>
    rw [hcu] at h
    cases h
    exact henc.of_agree (Nat.le_add_right _ _) fun i hi => sign_of_lt pairwise_noSign hi

end

/-! ### The reading of a packet -/

/-- `feed` reads the links that were written. -/
theorem parseLinks_bytes {buf : Buffer} :
    ∀ (links : List (NodeId × UInt16)) (addr : Nat) (prev : Option NodeId),
      buf.read addr (8 * links.length) = links.flatMap bytesOf →
      (links.Pairwise fun a b => a.1 < b.1) → (∀ m ∈ prev, ∀ l ∈ links, m < l.1) →
      (∀ l ∈ links, l.2 ≠ 0) →
      parseLinks buf links.length addr prev
        = .ok (links.map fun l => { neighbor := l.1, quality := l.2 }) := by
  intro links
  induction links with
  | nil => exact fun _ _ _ _ _ _ => rfl
  | cons l links ih =>
    intro addr prev hread hasc hprev hpos
    obtain ⟨hfirst, hasc⟩ := List.pairwise_cons.mp hasc
    -- The block of the first link is an identifier and a quality.
    have hsplit : buf.read addr ((bytesOf l).length + (links.flatMap bytesOf).length)
        = bytesOf l ++ links.flatMap bytesOf := by
      rw [length_bytesOf, length_flatMap_bytesOf, ← List.flatMap_cons, ← hread, List.length_cons,
        Nat.mul_succ, Nat.add_comm 8]
    obtain ⟨hlink, hrest⟩ := Buffer.read_eq_append hsplit
    rw [length_bytesOf, length_flatMap_bytesOf] at hrest
    have hparts : buf.read addr (l.1.toArray.length + (toBigEndian 2 l.2.toNat).length)
        = l.1.toArray ++ toBigEndian 2 l.2.toNat := by
      rw [← List.length_append]
      exact hlink
    obtain ⟨hid, hq⟩ := Buffer.read_eq_append hparts
    rw [NodeId.length_toArray] at hid hq
    rw [length_toBigEndian] at hq
    have hnode : NodeId.fromArray (buf.read addr NodeId.size) = l.1 := by
      rw [hid, NodeId.fromArray_toArray]
    have hqual : UInt16.ofNat (ofBigEndian (buf.read (addr + NodeId.size) 2)) = l.2 := by
      rw [hq, ofBigEndian_toBigEndian_of_lt l.2.toNat_lt, UInt16.ofNat_toNat]
    have hafter : (prev.any fun m => decide (m ≥ l.1)) = false := by
      cases prev with
      | none => rfl
      | some m => simpa using hprev m rfl l List.mem_cons_self
    have hih := ih (addr + TopoPacket.linkSize) (some l.1) hrest hasc
      (fun m hm x hx => by cases hm; exact hfirst x hx)
      fun x hx => hpos x (List.mem_cons_of_mem _ hx)
    rw [List.length_cons, parseLinks]
    simp only [hnode, hqual, if_neg (hpos l List.mem_cons_self), hafter, hih, except_bind_ok]
    rfl

section
variable {p : BasePacket} {src : NodeId} {validity : Nat} {links : List (NodeId × UInt16)}
  {name : List UInt8} (h : Encodes p src validity links name)
include h

/-- The source that the receiver reads. -/
theorem Encodes.getSrc_eq : SrcPacket.getSrc p = src := by
  rw [SrcPacket.getSrc, h.source, NodeId.fromArray_toArray]

/-- The validity that it reads, which has to fit in 32 bits. -/
theorem Encodes.getValidity_eq (hv : validity < 2 ^ 32) :
    TopoPacket.getValidity p = Duration.ofMillis validity := by
  rw [TopoPacket.getValidity, h.validity, ofBigEndian_toBigEndian_of_lt hv]

/-- The packet is as long as its number of links says. -/
theorem Encodes.sizeOk : SizeOk p := by
  have hend : 22 + 8 * links.length + (1 + name.length) ≤ p.size := h.size
  rw [SizeOk, h.numLinks]
  show 22 + 1 ≤ p.size ∧ 22 + links.length * 8 ≤ p.size
  omega

/-- The links and the name lie one behind the other. -/
theorem Encodes.parts :
    p.buffer.read TopoPacket.offsetLinks (8 * links.length) = links.flatMap bytesOf ∧
      p.buffer (TopoPacket.offsetLinks + 8 * links.length) = UInt8.ofNat name.length ∧
      p.buffer.read (TopoPacket.offsetLinks + 8 * links.length + 1) name.length = name := by
  have hbody : p.buffer.read TopoPacket.offsetLinks ((links.flatMap bytesOf).length +
      ([UInt8.ofNat name.length] ++ name).length)
      = links.flatMap bytesOf ++ ([UInt8.ofNat name.length] ++ name) := by
    rw [length_flatMap_bytesOf, List.length_append, List.length_singleton]
    exact h.body
  obtain ⟨hlinks, htail⟩ := Buffer.read_eq_append hbody
  rw [List.length_append] at htail
  obtain ⟨hcount, hname⟩ := Buffer.read_eq_append htail
  rw [length_flatMap_bytesOf] at hlinks hcount hname
  refine ⟨hlinks, ?_, hname⟩
  simpa [Buffer.read] using hcount

/-- `feed` reads the links that are announced. -/
theorem Encodes.parse (hasc : links.Pairwise fun a b => a.1 < b.1)
    (hpos : ∀ l ∈ links, l.2 ≠ 0) :
    parseLinks p.buffer (TopoPacket.getNumLinks p) TopoPacket.offsetLinks none
      = .ok (links.map fun l => { neighbor := l.1, quality := l.2 }) := by
  rw [h.numLinks]
  exact parseLinks_bytes links _ none h.parts.1 hasc (fun m hm => by cases hm) hpos

/-- `feed` reads the name that is announced. -/
theorem Encodes.packetName_eq (hlen : name.length ≤ 32) (hnul : 0 ∉ name) :
    packetName p = some name := by
  obtain ⟨-, hcount, hname⟩ := h.parts
  have hend : 22 + 8 * links.length + (1 + name.length) ≤ p.size := h.size
  have haddr : TopoPacket.offsetLinks + TopoPacket.getNumLinks p * TopoPacket.linkSize
      = TopoPacket.offsetLinks + 8 * links.length := by
    rw [h.numLinks, Nat.mul_comm]
  have hbyte : min (UInt8.ofNat name.length).toNat 32 = name.length := by
    rw [UInt8.toNat_ofNat', Nat.mod_eq_of_lt (by omega), min_eq_left hlen]
  have hstring : name.takeWhile (· ≠ 0) = name := by
    rw [List.takeWhile_eq_self_iff]
    intro b hb
    simpa using fun h0 : b = 0 => hnul (h0 ▸ hb)
  simp only [packetName, haddr, hcount, hbyte, hname, hstring]
  exact if_pos (show 22 + 8 * links.length < p.size by omega)

/-- A packet that announces links in ascending order passes every check of `feed`. -/
theorem Encodes.wellFormed (hv : 0 < validity ∧ validity < 2 ^ 32)
    (hasc : links.Pairwise fun a b => a.1 < b.1) (hpos : ∀ l ∈ links, l.2 ≠ 0) :
    WellFormed p where
  size := h.sizeOk
  valid := by
    rw [h.getValidity_eq hv.2]
    exact Int.mul_pos (Int.natCast_pos.mpr hv.1) (by decide)
  links := ⟨_, h.parse hasc hpos⟩

/-- The links that it reads: `parse_links` takes all of them, because the neighbours ascend and no
quality is 0. -/
theorem Encodes.packetLinks_shape (hasc : links.Pairwise fun a b => a.1 < b.1)
    (hpos : ∀ l ∈ links, l.2 ≠ 0) : (packetLinks p).map shape = links := by
  rw [packetLinks_of_ok (h.parse hasc hpos), List.map_map]
  exact List.map_id links

end

/-! ### Sender and receiver -/

/-- Three periods fit into the field of the validity. -/
theorem validity_of_period {period : Int} (h : 1 ≤ period ∧ period ≤ (2 ^ 31 - 1) / 3) :
    (((3 * period) % 2 ^ 32).toNat : Int) = 3 * period ∧
      0 < ((3 * period) % 2 ^ 32).toNat ∧ ((3 * period) % 2 ^ 32).toNat < 2 ^ 32 := by
  obtain ⟨hlo, hhi⟩ := h
  have hthird : ((2 : Int) ^ 31 - 1) / 3 = 715827882 := by decide
  have hmod : (3 * period) % 2 ^ 32 = 3 * period := Int.emod_eq_of_lt (by omega) (by omega)
  rw [hmod]
  omega

/-- The topology returns from `feed` of the packet `p`, and then it has learnt what the
station `r` announces with the period `period`. -/
def Accepts (st : Station) (now : AbsTime) (s : RTopology) (host : Host) (r : AwdsRouting)
    (period : Int) (p : BasePacket) : Prop :=
  ∃ s', s.feed st now p = .ok s' ∧
    Learnt now s s' host.myNodeId (announced host r) (now + Duration.ofMillis (3 * period))
      r.nodeName

/-- A topo packet that `send_topo` has built passes every check that `feed` makes of a
packet. An unlocked receiver whose packets have passed the size checks so far accepts it
exactly if it is ready for the packet: the metric does not fail on a link, and if the routes
are computed, the own node is alive behind the merge. That it accepts the packet is shown
for graphs of at most 1024 nodes. In larger ones the sum of the weights of a route can
wrap. -/
theorem topo_accepted_iff {host : Host} {r r' : AwdsRouting} {p : BasePacket}
    (hasc : Ascending NodeDescr.id r.neighbors) (hlen : r.neighbors.length ≤ maxNeighbors)
    (hname : r.nodeName.length ≤ 31 ∧ 0 ∉ r.nodeName) (hbuilt : r.makeTopo host = .ok (r', p))
    (hperiod : 1 ≤ r'.topoPeriodMs ∧ r'.topoPeriodMs ≤ (2 ^ 31 - 1) / 3)
    {st : Station} (hm : PositiveMetric st.metric) {s : RTopology}
    (hr : Reachable st (fun _ e => FeedsSized e) s) (hlocked : s.locked = false)
    (now : AbsTime) :
    WellFormed p ∧ (Accepts st now s host r r'.topoPeriodMs p → Ready st now s p) ∧
      ((s.dirty = true ∨ hasNews s p = true → (nodesBehind s p).card ≤ 1024) →
        Ready st now s p → Accepts st now s host r r'.topoPeriodMs p) := by
  -- The packet has the fields of the sender, and what was written is read again.
  have henc := makeTopo_encodes (hname.1.trans (by decide)) (hlen.trans (by decide)) hbuilt
  obtain ⟨hv, hrange⟩ := validity_of_period hperiod
  have hlinks : (announced host r).Pairwise fun a b => a.1 < b.1 := announced_ascending hasc
  obtain ⟨hc, hw⟩ := sound_of_reachable hm hr
  have hp := henc.wellFormed hrange hlinks announced_quality
  refine ⟨hp, ?_, ?_⟩
  · -- It was accepted, so nothing in it has stopped the feed.
    rintro ⟨s', hs', -⟩
    exact .of_feed hc hlocked hp.size hs'
  · -- Nothing stops it, and what it teaches is read off the packet.
    intro hsize hready
    obtain ⟨s', hs'⟩ := hready.feed hm hc hw hlocked hp hsize
    have hlearnt := Learnt.of_feed hc hlocked hp.size
      (henc.packetName_eq (hname.1.trans (by decide)) hname.2) hs'
    rw [henc.getSrc_eq, henc.packetLinks_shape hlinks announced_quality,
      henc.getValidity_eq hrange.2, hv] at hlearnt
    exact ⟨s', hs', hlearnt⟩

/-- The station 2 with the good neighbour `n`, under the name `gw`. -/
def gateway (n : NodeId) : AwdsRouting :=
  { pairRouting true with
    neighbors := [{ id := n, lastBeacon := some (beaconOf n 1 1000 [2]), active := true }]
    nodeName := [103, 119]
    topoPeriodType := .constant }

/-- The topo packet of the station 2 at the station 1, which has just been started. -/
theorem topo_accepted_iff_gateway :
    ∃ r' p, (gateway 1).makeTopo (pairHosts true) = .ok (r', p) ∧
      announced (pairHosts true) (gateway 1) = [(1, 10)] ∧
      Accepts (.hopCount 1) 0 (init (.hopCount 1) 0) (pairHosts true) (gateway 1) r'.topoPeriodMs
        p := by
  obtain ⟨⟨r', p⟩, hbuilt, htest⟩ := exists_of_test ((gateway 1).makeTopo (pairHosts true))
    (fun out => decide (1 ≤ out.1.topoPeriodMs ∧ out.1.topoPeriodMs ≤ (2 ^ 31 - 1) / 3) &&
      decide ((nodesBehind (init (.hopCount 1) 0) out.2).card ≤ 1024)) (by decide +kernel)
  rw [Bool.and_eq_true, decide_eq_true_eq, decide_eq_true_eq] at htest
  have hready : Ready (.hopCount 1) 0 (init (.hopCount 1) 0) p :=
    ⟨fun _ _ _ _ => ⟨1, rfl⟩, fun _ => .inr (.inr (.inl ⟨_, rfl, by decide⟩))⟩
  have hasc : Ascending NodeDescr.id (gateway 1).neighbors := List.pairwise_singleton _ _
  exact ⟨r', p, hbuilt, by decide +kernel,
    (topo_accepted_iff hasc (by decide) (by decide) hbuilt htest.1
      (positive_of_installed (.inl (.inl rfl))) ⟨0, .refl⟩ rfl 0).2.2 (fun _ => htest.2) hready⟩

/-- The station 1 hears of itself, is locked, drops its own packets and is unlocked at 6 s,
when its own node has expired. -/
def lockedRun : List Event :=
  [⟨0, .feed (topoOf 1 3000 [])⟩, ⟨1000000000, .setLocked true⟩,
    ⟨3000000000, .feed (topoOf 1 3000 [])⟩, ⟨6000000000, .setLocked false⟩]

/-- Whether an assertion has failed. -/
def failsAssertion {α : Type} : Result α → Bool
  | .error .assertion => true
  | _ => false

/-- How the test turns into the result. -/
theorem eq_of_failsAssertion {α : Type} {x : Result α} (h : failsAssertion x = true) :
    x = .error .assertion := by
  unfold failsAssertion at h
  split at h
  · rfl
  · cases h

/-- A topo packet of the station 2, which does not list the station 1, ends the station 1
behind the run. -/
theorem topo_aborts_lockedRun :
    ∃ r' p s, (gateway 3).makeTopo (pairHosts true) = .ok (r', p) ∧
      Ascending NodeDescr.id (gateway 3).neighbors ∧ (gateway 3).neighbors.length ≤ maxNeighbors ∧
      ((gateway 3).nodeName.length ≤ 31 ∧ 0 ∉ (gateway 3).nodeName) ∧
      (1 ≤ r'.topoPeriodMs ∧ r'.topoPeriodMs ≤ (2 ^ 31 - 1) / 3) ∧
      Reachable (.hopCount 1) (fun _ e => FeedsSized e) s ∧ s.locked = false ∧
      s.feed (.hopCount 1) 6000000000 p = .error .assertion ∧
      ¬ Accepts (.hopCount 1) 6000000000 s (pairHosts true) (gateway 3) r'.topoPeriodMs p := by
  -- The packet is made and the run is computed.
  obtain ⟨⟨⟨r', p⟩, s⟩, hrun, htest⟩ := exists_of_test
    (do let out ← (gateway 3).makeTopo (pairHosts true)
        let s ← lockedRun.foldlM (exec (.hopCount 1)) (init (.hopCount 1) 0)
        .ok (out, s))
    (fun x => decide (1 ≤ x.1.1.topoPeriodMs ∧ x.1.1.topoPeriodMs ≤ (2 ^ 31 - 1) / 3) &&
      !x.2.locked && failsAssertion (x.2.feed (.hopCount 1) 6000000000 x.1.2)) (by decide +kernel)
  obtain ⟨out, hbuilt, hrun⟩ := bind_eq_ok.mp hrun
  obtain ⟨s1, hs, hrun⟩ := bind_eq_ok.mp hrun
  cases hrun
  simp only [Bool.and_eq_true, decide_eq_true_eq, Bool.not_eq_true'] at htest
  -- The feed stops at the assertion, so the packet is not accepted.
  obtain ⟨⟨hperiod, hlocked⟩, hfails⟩ := htest
  have hfeed := eq_of_failsAssertion hfails
  refine ⟨r', p, s, hbuilt, List.pairwise_singleton _ _, by decide, by decide, hperiod,
    ⟨0, steps_of_events lockedRun _ s (fun e he _ => feedsSized_of_all (by decide +kernel) e he)
      hs⟩, hlocked, hfeed, ?_⟩
  rintro ⟨s', hs', -⟩
  rw [hfeed] at hs'
  cases hs'

end Awds.Proofs
