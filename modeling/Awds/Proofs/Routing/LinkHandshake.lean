import Awds.Routing.BeaconNetwork
import Awds.Proofs.Routing.BeaconHistory
import Awds.Proofs.Routing.FloodCoverage
import Awds.Proofs.PacketHandlers

/-!
# `Awds.Proofs.Routing.LinkHandshake`: a link is good in both directions

A station announces a link to a neighbour in its topo packets if `isBidiGood` says so: the
neighbour is active, and its last beacon lists the station. Both are facts about beacons.
`isBidiGood_heard` says what they are worth in a network that loses, doubles, delays and reorders
beacons and whose stations start again at any time: the station has heard thirteen different
beacons of the neighbour since it was started, and when the neighbour sent the last one that was
heard, it had heard thirteen different beacons of the station.

The history of a neighbour is not exact in such a network, since a beacon that comes too late is
entered at a wrong place. But every one of its bits still stands for a beacon that was heard
(`Window.Witnessed`), and more than twelve bits for more than twelve beacons.

`NetOk` is the invariant. `BeaconOk` is about a beacon that was sent, `EntryOk` about a neighbour
of a station, and `NetOk.step` goes through the steps. `exchange` is a run of two stations,
whose link is good behind thirteen beacons in each direction.
-/

set_option autoImplicit false

namespace Awds.Proofs

open Awds.Lib Awds.AwdsRouting Awds.Beacon Awds.BeaconNetwork

/-! ### What a station reads of a beacon -/

section Reading

variable {p q lb : BasePacket} {id : NodeId} {r : AwdsRouting}

/-- The end of the list in a beacon. -/
def beaconEnd (p : BasePacket) : Nat :=
  offsetLNeigh + (getNumNoMpr p + getNumMpr p).toNat * NodeId.size

/-- The packet `lb` has the contents of the beacon `q`. The first byte has only the type. -/
def ReadsAs (lb q : BasePacket) : Prop :=
  ∀ i, 1 ≤ i → i < beaconEnd q → lb.buffer i = q.buffer i

/-- The list begins behind the header of the beacon. -/
theorem offsetLNeigh_le_beaconEnd (q : BasePacket) : offsetLNeigh ≤ beaconEnd q :=
  Nat.le_add_right _ _

/-- The sequence number lies in the part of a beacon that is kept. -/
theorem ReadsAs.getSeq (h : ReadsAs lb q) : SrcPacket.getSeq lb = SrcPacket.getSeq q := by
  have hend := offsetLNeigh_le_beaconEnd q
  unfold SrcPacket.getSeq
  congr 1
  refine Buffer.read_congr fun i hlo hhi => h i ?_ ?_
  · exact Nat.le_trans (by decide) hlo
  · exact (hhi.trans (by decide)).trans_le hend

/-- The source lies in that part, too. -/
theorem ReadsAs.getSrc (h : ReadsAs lb q) : SrcPacket.getSrc lb = SrcPacket.getSrc q := by
  have hend := offsetLNeigh_le_beaconEnd q
  refine getSrc_congr fun i hlo hhi => h i hlo ?_
  exact (hhi.trans (by decide)).trans_le hend

/-- Neither the type nor a byte behind the list is read. -/
theorem ReadsAs.setType (h : ReadsAs lb q) (t : PacketType) : ReadsAs (lb.setType t) q := by
  intro i hlo hhi
  rw [← h i hlo hhi]
  exact setType_buffer lb t hlo

/-- A search between two bounds reads the entries between them. -/
theorem binsearch_congr {n k : Nat} {a b : Int}
    (hsame : ∀ m : Int, 0 ≤ m → m < n → neighAt lb m = neighAt q m) (ha : 0 ≤ a) (hab : a ≤ b)
    (hb : b ≤ n) : binsearch lb id k a b = binsearch q id k a b := by
  induction k generalizing a b with
  | zero => rfl
  | succ k ih =>
    rw [binsearch, binsearch]
    split
    · rfl
    -- the middle lies between the bounds
    have hmid : a ≤ Int.tdiv (a + b) 2 ∧ Int.tdiv (a + b) 2 < b := by
      rw [Int.tdiv_eq_ediv_of_nonneg (by omega)]
      omega
    simp only
    rw [hsame _ (by omega) (by omega)]
    cases neighAt q (Int.tdiv (a + b) 2) with
    | error e => rfl
    | ok mId =>
      simp only [except_bind_ok]
      rw [ih (by omega) (by omega) (by omega), ih (by omega) (by omega) (by omega)]

/-- `lb` has the counts and the list of `q`. -/
def ListsAs (lb q : BasePacket) : Prop :=
  ∀ i, offsetNumNoMpr ≤ i → i < beaconEnd q → lb.buffer i = q.buffer i

/-- The counts and the list are a part of the contents. -/
theorem ReadsAs.listsAs (h : ReadsAs lb q) : ListsAs lb q :=
  fun i hlo hhi => h i (Nat.le_trans (by decide) hlo) hhi

/-- The counts lie in front of the list. -/
theorem ListsAs.counts (h : ListsAs lb q) :
    getNumMpr lb = getNumMpr q ∧ getNumNoMpr lb = getNumNoMpr q := by
  have hend := offsetLNeigh_le_beaconEnd q
  constructor
  · rw [getNumMpr, h _ (by decide) (lt_of_lt_of_le (by decide) hend), getNumMpr]
  · rw [getNumNoMpr, h _ le_rfl (lt_of_lt_of_le (by decide) hend), getNumNoMpr]

/-- The counts are read from the list alone. -/
theorem ListsAs.countsNonneg (h : ListsAs lb q) (hcounts : CountsNonneg q) :
    CountsNonneg lb := by
  rw [CountsNonneg, h.counts.1, h.counts.2]
  exact hcounts

/-- Two beacons with the same counts have their ends at the same place. -/
theorem ListsAs.beaconEnd (h : ListsAs lb q) : beaconEnd lb = beaconEnd q := by
  rw [Proofs.beaconEnd, h.counts.1, h.counts.2, Proofs.beaconEnd]

/-- The searches read nothing but the counts and the list. -/
theorem ListsAs.hasNeigh (h : ListsAs lb q) (hcounts : CountsNonneg q) (id : NodeId) :
    Beacon.hasNeigh lb id = Beacon.hasNeigh q id := by
  obtain ⟨hmpr, hnoMpr⟩ := h.counts
  obtain ⟨h0, h0'⟩ := hcounts
  have hsame : ∀ m : Int, 0 ≤ m → m < ((getNumNoMpr q + getNumMpr q).toNat : Nat) →
      neighAt lb m = neighAt q m := by
    intro m hm hlt
    rw [neighAt_of_nonneg hm, neighAt_of_nonneg hm, neighIndex, neighIndex]
    congr 2
    refine Buffer.read_congr fun i hlo hhi => h i ?_ ?_
    · exact Nat.le_trans (Nat.le_trans (by decide) (Nat.le_add_right _ _)) hlo
    · refine hhi.trans_le ?_
      show 13 + m.toNat * 6 + 6 ≤ 13 + (getNumNoMpr q + getNumMpr q).toNat * 6
      omega
  unfold Beacon.hasNeigh hasMpr hasNoMpr hasNeighBinsearch
  rw [hmpr, hnoMpr, binsearch_congr hsame le_rfl h0 (by omega),
    binsearch_congr hsame h0 (by omega) (by omega)]

end Reading

/-! ### The beacon of a station -/

section Sending

variable {host : Host} {clock : Clock} {b b' : BeaconRouting} {r : AwdsRouting} {n : Nat}
  {p q : BasePacket}

/-- The invariant of the table is about the neighbours only. -/
theorem TableOk.of_neighbors {r' : AwdsRouting} (h : TableOk r)
    (hns : r'.neighbors = r.neighbors) : TableOk r' :=
  ⟨hns ▸ h.ascending, hns ▸ h.length_le⟩

/-- The table behind `calcMpr`, which keeps the addresses. -/
theorem TableOk.flagged {r' : AwdsRouting} (h : TableOk r)
    (hns : r'.neighbors = r.neighbors.map flagged) : TableOk r' := by
  constructor
  · rw [hns]
    exact List.pairwise_map.mpr h.ascending
  · rw [hns, List.length_map]
    exact h.length_le

/-- All good neighbours are found in the beacon that `setNeigh` makes. -/
theorem hasNeigh_setNeigh (h : TableOk r) (hmpr : ∀ nd ∈ r.neighbors, nd.mpr = true)
    (p : BasePacket) (id : NodeId) : Beacon.hasNeigh (Beacon.setNeigh r p) id
      = .ok (r.neighbors.any fun nd => nd.id = id && nd.isGood) := by
  have hnone : goodOf false r.neighbors = [] := by
    refine List.filter_eq_nil_iff.mpr fun nd hnd => ?_
    simp [hmpr nd hnd]
  have hpart := search_part (p := p) h.length_le [] (goodOf true r.neighbors) [] (by
      simp [listOf, hnone]) (h.ascending.filter _) (a := 0)
    (b := getNumMpr (Beacon.setNeigh r p)) rfl
    (by simp [getNumMpr_setNeigh (p := p) h.length_le]) id
  have hgood : (r.neighbors.any fun nd => nd.id = id && nd.isGood && nd.mpr == true)
      = r.neighbors.any fun nd => nd.id = id && nd.isGood := by
    rw [Bool.eq_iff_iff, List.any_eq_true, List.any_eq_true]
    refine exists_congr fun nd => and_congr_right fun hnd => ?_
    simp [hmpr nd hnd]
  have hnoMpr : hasNoMpr (Beacon.setNeigh r p) id = .ok false := by
    have hzero : getNumNoMpr (Beacon.setNeigh r p) = 0 := by
      rw [getNumNoMpr_setNeigh h.length_le, hnone]
      rfl
    rw [hasNoMpr, hasNeighBinsearch, hzero, Int.add_zero, binsearch, if_pos rfl]
  rw [any_goodOf, hgood] at hpart
  rw [Beacon.hasNeigh, hasMpr, hpart, except_bind_ok, hnoMpr]
  cases r.neighbors.any fun nd => nd.id = id && nd.isGood <;> simp

/-- The size of the packet that `setNeigh` makes is the end of its list. -/
theorem beaconEnd_setNeigh (h : TableOk r) (p : BasePacket) :
    CountsNonneg (Beacon.setNeigh r p) ∧
      beaconEnd (Beacon.setNeigh r p) = (Beacon.setNeigh r p).size := by
  have hmpr := getNumMpr_setNeigh (p := p) h.length_le
  have hnoMpr := getNumNoMpr_setNeigh (p := p) h.length_le
  refine ⟨⟨by omega, by omega⟩, ?_⟩
  rw [setNeigh_size, beaconEnd, hmpr, hnoMpr, listOf, List.length_append]
  congr 2
  omega

/-- What a station sends, and what it keeps. -/
structure Sends (host : Host) (b b' : BeaconRouting) (q : BasePacket) : Prop where
  neighbors : b'.neighbors = b.neighbors.map flagged
  src : SrcPacket.getSrc q = host.myNodeId
  counts : CountsNonneg q
  fits : beaconEnd q ≤ q.size
  list : ∀ x, Beacon.hasNeigh q x = .ok (b.neighbors.any fun nd => nd.id = x && nd.active)

/-- The source of a beacon is its sender. -/
theorem getSrc_setNeigh (r : AwdsRouting) (p : BasePacket) (id : NodeId) :
    SrcPacket.getSrc (Beacon.setNeigh r (SrcPacket.setSrc p id)) = id := by
  have hwritten := Buffer.read_write_self p.buffer SrcPacket.offsetSrc id.toArray
  rw [NodeId.length_toArray] at hwritten
  unfold SrcPacket.getSrc
  rw [setNeigh_buffer, Buffer.read_write_disjoint _ _ (.inl (by decide)),
    Buffer.read_write_disjoint _ _ (.inl (by decide)),
    Buffer.read_write_disjoint _ _ (.inl (by decide)), SrcPacket.setSrc, BasePacket.write_buffer,
    hwritten, NodeId.fromArray_toArray]

/-- A beacon in front of its signature. Its size is the end of the list. -/
theorem sends_unsignedBeacon (htab : TableOk b.toAwdsRouting)
    (h : b.unsignedBeacon host = .ok (b', q)) :
    Sends host b b' q ∧ beaconEnd q = q.size := by
  obtain ⟨r, hcalc, h⟩ := bind_eq_ok.mp h
  have hmpr := calcMpr_mpr hcalc
  have hns := calcMpr_neighbors hcalc
  have htab' := htab.flagged hns
  obtain ⟨hb, hq⟩ := Prod.mk.inj (Except.ok.inj h)
  let p := SrcPacket.setSrc (BasePacket.new.setType .beacon) host.myNodeId
  obtain ⟨hcounts, hend⟩ := beaconEnd_setNeigh htab' p
  have hbuf : q.buffer = (setPeriod (SrcPacket.setSeq (Beacon.setNeigh r p) b.beaconSeq.toNat)
      b.beaconPeriod).buffer := by rw [← hq, BasePacket.setDest]
  have hsize : q.size = (Beacon.setNeigh r p).size := by
    rw [← hq]
    rfl
  -- the sequence number and the period are in front of the counts
  have hlists : ListsAs q (Beacon.setNeigh r p) := by
    intro i hlo _
    rw [hbuf]
    refine (Buffer.write_of_ge _ _ ?_).trans (Buffer.write_of_ge _ _ ?_)
    · rwa [length_toBigEndian]
    · rw [length_toBigEndian]
      exact Nat.le_trans (by decide) hlo
  -- and they are behind the source
  have hsrc : SrcPacket.getSrc q = SrcPacket.getSrc (Beacon.setNeigh r p) := by
    refine getSrc_congr fun i _ hhi => ?_
    rw [hbuf]
    refine (Buffer.write_of_lt _ _ ?_).trans (Buffer.write_of_lt _ _ ?_)
    · exact hhi.trans (by decide)
    · exact hhi
  have hsame : beaconEnd q = q.size := (hlists.beaconEnd.trans hend).trans hsize.symm
  refine ⟨⟨?_, ?_, hlists.countsNonneg hcounts, hsame.le, fun x => ?_⟩, hsame⟩
  · rw [← hb]
    exact hns
  · exact hsrc.trans (getSrc_setNeigh r _ host.myNodeId)
  · refine (hlists.hasNeigh hcounts x).trans ?_
    rw [hasNeigh_setNeigh htab' hmpr, hns, List.any_map]
    rfl

/-- The signature makes a beacon longer, and the table stays. -/
theorem signBeacon_keeps (host : Host) (r : AwdsRouting) (q : BasePacket) :
    (r.signBeacon host q).1.neighbors = r.neighbors ∧ q.size ≤ (r.signBeacon host q).2.size := by
  unfold signBeacon
  split
  · exact ⟨rfl, le_rfl⟩
  · exact ⟨rfl, Nat.le_add_right _ _⟩

/-- A beacon with its signature, which lies behind the list. -/
theorem sends_makeBeacon (htab : TableOk b.toAwdsRouting)
    (h : b.makeBeacon host = .ok (b', q)) : Sends host b b' q := by
  obtain ⟨⟨b₁, q₁⟩, hunsigned, h⟩ := bind_eq_ok.mp h
  obtain ⟨hsends, hend⟩ := sends_unsignedBeacon htab hunsigned
  have hreads : ReadsAs (b₁.toAwdsRouting.signBeacon host q₁).2 q₁ :=
    fun i _ hhi => signBeacon_buffer _ _ (hhi.trans_le hend.le)
  have hlists := hreads.listsAs
  obtain ⟨hns, hsize⟩ := signBeacon_keeps host b₁.toAwdsRouting q₁
  cases h
  constructor
  · exact hns.trans hsends.neighbors
  · exact hreads.getSrc.trans hsends.src
  · exact hlists.countsNonneg hsends.counts
  · exact (hlists.beaconEnd.trans hend).trans_le hsize
  · exact fun x => (hlists.hasNeigh hsends.counts x).trans (hsends.list x)

/-- `send_beacon` sends the beacon that `makeBeacon` has made, and only sets the time of the next
one. -/
theorem sends_sendBeacon (htab : TableOk b.toAwdsRouting)
    (h : b.sendBeacon host clock n = .ok (b', q)) : Sends host b b' q := by
  obtain ⟨⟨b₁, q₁⟩, hmake, h⟩ := bind_eq_ok.mp h
  have hsends := sends_makeBeacon htab hmake
  simp only at h
  split at h
  · cases h
  · cases h
    exact ⟨hsends.neighbors, hsends.src, hsends.counts, hsends.fits, hsends.list⟩

end Sending

/-! ### What a station has heard -/

section Heard

variable {ι : Type} {H H' : Set (ι × BasePacket)} {j : ι} {nd nd' : NodeDescr}
  {lb p q q' : BasePacket} {r r' : AwdsRouting} {t : AbsTime} {isNew : Bool}

/-- Thirteen different beacons of the station `j` have been heard. -/
def HeardThirteen (H : Set (ι × BasePacket)) (j : ι) : Prop :=
  ∃ bs : List BasePacket, bs.length = 13 ∧ (bs.map SrcPacket.getSeq).Nodup ∧
    ∀ q ∈ bs, (j, q) ∈ H

/-- What was heard stays heard. -/
theorem HeardThirteen.mono (h : HeardThirteen H j) (hsub : H ⊆ H') : HeardThirteen H' j := by
  obtain ⟨bs, hlen, hdiff, hbs⟩ := h
  exact ⟨bs, hlen, hdiff, fun q hq => hsub (hbs q hq)⟩

/-- The bits of a history stand for beacons of the station `j` that were heard. -/
def Marks (hist : UInt32) (last : Nat) (H : Set (ι × BasePacket)) (j : ι) : Prop :=
  Window.Witnessed SrcPacket.getSeq hist.toBitVec last {q | (j, q) ∈ H}

/-- A history that makes a neighbour active has thirteen bits at least. -/
theorem Marks.heardThirteen {hist : UInt32} {last : Nat} (h : Marks hist last H j)
    (htrigger : hist > 0xFFF00000) : HeardThirteen H j := by
  have hmask : Window.topOnes 32 12 < hist.toBitVec.toNat := htrigger
  obtain ⟨hones, k, h12, h32, hbit⟩ := (Window.topOnes_lt_iff (by decide)).mp hmask
  have hdiff : (k :: List.range 12).Nodup := by
    refine List.nodup_cons.mpr ⟨fun hmem => ?_, List.nodup_range⟩
    have := List.mem_range.mp hmem
    omega
  have hbits : ∀ i ∈ k :: List.range 12, i < 32 ∧ hist.toBitVec.getMsbD i = true := by
    intro i hi
    rcases List.mem_cons.mp hi with rfl | hi
    · exact ⟨h32, hbit⟩
    · have hlt := List.mem_range.mp hi
      exact ⟨by omega, hones i hlt⟩
  obtain ⟨bs, hlen, hseqs, hbs⟩ := h.distinct hdiff hbits
  exact ⟨bs, hlen, hseqs, fun q hq => (hbs q hq).1⟩

/-- A beacon shifts the history by its distance from the last one, modulo 32. -/
theorem Marks.noteBeacon (h : Marks nd.beaconHist (SrcPacket.getSeq lb) H j) (hsub : H ⊆ H')
    (hq : (j, q) ∈ H') (hseq : SrcPacket.getSeq p = SrcPacket.getSeq q) :
    Marks (nd.noteBeacon lb p t).1.beaconHist (SrcPacket.getSeq q) H' j := by
  have hlt := getSeq_lt lb
  unfold Marks
  rw [noteBeacon_hist, histAfter_toBitVec, hseq]
  refine Window.Witnessed.enter h (fun q' hq' => hsub hq') hq ?_
  omega

/-- A neighbour whose last beacon is `q`, a beacon of the station `j`. -/
structure Knows (nd : NodeDescr) (j : ι) (q : BasePacket) (H : Set (ι × BasePacket)) : Prop where
  heard : (j, q) ∈ H
  last : ∃ lb, nd.lastBeacon = some lb ∧ ReadsAs lb q
  marks : Marks nd.beaconHist (SrcPacket.getSeq q) H j
  active : nd.active = true → HeardThirteen H j

/-- The first beacon of a new entry. -/
theorem knows_first (hreads : ReadsAs p q) (hq : (j, q) ∈ H) (id : NodeId) :
    Knows ((NodeDescr.init id p t).noteBeacon p p t).1 j q H := by
  have hnone : Marks (NodeDescr.init id p t).beaconHist (SrcPacket.getSeq p) H j :=
    Window.witnessed_zero SrcPacket.getSeq (SrcPacket.getSeq p) _
  refine ⟨hq, ⟨p, (noteBeacon_spec _ p p t).2.1, hreads⟩,
    hnone.noteBeacon subset_rfl hq hreads.getSeq, fun hactive => ?_⟩
  rcases (noteBeacon_active _ p p t).1.mp hactive with hidle | hreceived
  · cases hidle
  · exact absurd hreceived (not_lastReceived_init id p t)

/-- The next beacon of a neighbour. -/
theorem Knows.noteBeacon (h : Knows nd j q H) (hlb : nd.lastBeacon = some lb)
    (hreads : ReadsAs p q') (hsub : H ⊆ H') (hq : (j, q') ∈ H') :
    Knows (nd.noteBeacon lb p t).1 j q' H' := by
  obtain ⟨lb', hlb', hreads'⟩ := h.last
  cases hlb.symm.trans hlb'
  have hmarks := h.marks
  rw [← hreads'.getSeq] at hmarks
  have hmarks' : Marks (nd.noteBeacon lb p t).1.beaconHist (SrcPacket.getSeq q') H' j :=
    hmarks.noteBeacon hsub hq hreads.getSeq
  refine ⟨hq, ⟨p, (noteBeacon_spec nd lb p t).2.1, hreads⟩, hmarks', fun hactive => ?_⟩
  rcases (noteBeacon_active nd lb p t).1.mp hactive with hactive | hreceived
  · exact (h.active hactive).mono hsub
  · refine hmarks'.heardThirteen ?_
    rw [noteBeacon_hist]
    exact hreceived

/-- What a station keeps of a neighbour in other work. -/
theorem Knows.keeps (h : Knows nd j q H) (hsub : H ⊆ H')
    (hlast : ∀ lb, nd.lastBeacon = some lb → ReadsAs lb q →
      ∃ lb', nd'.lastBeacon = some lb' ∧ ReadsAs lb' q)
    (hhist : nd'.beaconHist = nd.beaconHist) (hactive : nd'.active = true → nd.active = true) :
    Knows nd' j q H' := by
  obtain ⟨lb, hlb, hreads⟩ := h.last
  refine ⟨hsub h.heard, hlast lb hlb hreads, ?_, fun h' => (h.active (hactive h')).mono hsub⟩
  rw [hhist]
  exact Window.Witnessed.mono h.marks fun q' hq' => hsub hq'

/-- `calcMpr` sets the type of the last beacon. -/
theorem Knows.flagged (h : Knows nd j q H) : Knows (flagged nd) j q H := by
  refine h.keeps subset_rfl (fun lb hlb hreads => ?_) rfl fun h' => h'
  exact ⟨lb.setType .beacon, by simp [Proofs.flagged, hlb], hreads.setType .beacon⟩

/-- The link-failure job keeps what a station knows, and it sets no neighbour active. -/
theorem Knows.deactivated (h : Knows nd j q H) (now : AbsTime) :
    Knows (deactivated now nd) j q H := by
  obtain ⟨-, hlast, hhist⟩ := deactivated_keeps now nd
  refine h.keeps subset_rfl (fun lb hlb hreads => ⟨lb, hlast.trans hlb, hreads⟩) hhist ?_
  intro hactive
  rw [active_deactivated, Bool.and_eq_true] at hactive
  exact hactive.1

/-- The entries behind `refreshNeigh`: old ones, the first beacon of a station, or one more beacon
of a neighbour. -/
theorem refreshNeigh_entries (hcall : r.refreshNeigh t p = .ok (r', isNew)) :
    ∀ nd' ∈ r'.neighbors, nd' ∈ r.neighbors ∨
      (nd'.id = SrcPacket.getSrc p ∧
        (nd' = ((NodeDescr.init (SrcPacket.getSrc p) p t).noteBeacon p p t).1 ∨
          ∃ nd ∈ r.neighbors, nd.id = SrcPacket.getSrc p ∧
            ∃ lb, nd.lastBeacon = some lb ∧ nd' = (nd.noteBeacon lb p t).1)) := by
  intro nd' hnd'
  obtain ⟨-, hcases⟩ := refreshNeigh_cases hcall
  rcases hcases with ⟨-, -, rfl, -⟩ | ⟨-, -, rfl, -⟩ | ⟨-, -, -, nd, lb, hup⟩
  · exact .inl hnd'
  · rw [addNeigh_eq _ _ _ _ (Prod.mk.eta).symm, armLinkCheck_neighbors] at hnd'
    rcases mem_insertAt.mp hnd' with rfl | hold
    · exact .inr ⟨(noteBeacon_spec _ p p t).1, .inl rfl⟩
    · exact .inl hold
  · obtain ⟨hop, -, rfl⟩ := hup.result
    rw [armLinkCheck_neighbors] at hnd'
    have hmem := List.mem_of_getElem? hup.entry
    rcases List.mem_or_eq_of_mem_set hnd' with hold | rfl
    · exact .inl hold
    · exact .inr ⟨(noteBeacon_spec nd lb p t).1.trans hup.src,
        .inr ⟨nd, hmem, hup.src, lb, hup.beacon, rfl⟩⟩

/-- A beacon is entered as it was received, or the table stays. -/
theorem recvBeacon_cases {host : Host} {clock : Clock}
    (h : r.recvBeacon host clock p = .ok r') :
    r'.neighbors = r.neighbors ∨ ∃ (r₀ : AwdsRouting) (isNew : Bool),
      r₀.neighbors = r.neighbors ∧
      r₀.refreshNeigh clock.lastEventTime (p.setType .beacon) = .ok (r', isNew) := by
  unfold recvBeacon at h
  simp only at h
  split at h
  · -- Without a key the beacon goes into the table as it is.
    obtain ⟨⟨r₁, isNew⟩, hrefresh, h⟩ := bind_eq_ok.mp h
    cases h
    exact .inr ⟨r, isNew, rfl, hrefresh⟩
  · rename_i cu hcu
    obtain ⟨len, hlen, h⟩ := bind_eq_ok.mp h
    have hsig : (cu.verifySignature host.ccm (SrcPacket.getSrc (p.setType .beacon))
        (p.setType .beacon).buffer len []).2.2 = true →
        (cu.verifySignature host.ccm (SrcPacket.getSrc (p.setType .beacon))
          (p.setType .beacon).buffer len []).2.1 = (p.setType .beacon).buffer :=
      verifySignature_ok .nil
    generalize cu.verifySignature host.ccm (SrcPacket.getSrc (p.setType .beacon))
      (p.setType .beacon).buffer len [] = out at h hsig
    -- With one, it goes there only if its signature is right, and then no byte has changed.
    split at h
    · cases h
      exact .inl rfl
    · rename_i hok
      obtain ⟨⟨r₁, isNew⟩, hrefresh, h⟩ := bind_eq_ok.mp h
      cases h
      rw [hsig (by simpa using hok)] at hrefresh
      exact .inr ⟨{ r with cryptoUnit := some out.1 }, isNew, rfl, hrefresh⟩

end Heard

/-! ### The network -/

section Handshake

variable {ι : Type} {hosts : ι → Host} {N N' : BeaconNetwork ι} {i : ι}
  {b b' : BeaconRouting} {t : SentBeacon ι} {nd nd' : NodeDescr}

/-- A beacon that was sent has the address of its sender, and the sender has heard thirteen
beacons of every station that it lists. -/
structure BeaconOk (hosts : ι → Host) (t : SentBeacon ι) : Prop where
  src : SrcPacket.getSrc t.packet = (hosts t.sender).myNodeId
  counts : CountsNonneg t.packet
  fits : beaconEnd t.packet ≤ t.packet.size
  list : ∀ x, Beacon.hasNeigh t.packet x = .ok true →
    ∃ j, (hosts j).myNodeId = x ∧ HeardThirteen t.heard j

/-- A neighbour of the station `i` is known by a beacon that was sent. -/
def EntryOk (hosts : ι → Host) (N : BeaconNetwork ι) (i : ι) (nd : NodeDescr) : Prop :=
  ∃ t ∈ N.air, (hosts t.sender).myNodeId = nd.id ∧ Knows nd t.sender t.packet (N.heard i)

/-- The table of the station `i` is in order, and so are its entries. -/
structure StationOk (hosts : ι → Host) (N : BeaconNetwork ι) (i : ι) (r : AwdsRouting) :
    Prop where
  table : TableOk r
  entries : ∀ nd ∈ r.neighbors, EntryOk hosts N i nd

/-- The invariant of the network. -/
structure NetOk (hosts : ι → Host) (N : BeaconNetwork ι) : Prop where
  air : ∀ t ∈ N.air, BeaconOk hosts t
  stations : ∀ i b, N.stations i = some b → StationOk hosts N i b.toAwdsRouting

/-- What is on the air stays there, and nobody but the station `i` does anything. -/
structure OnlyAt (i : ι) (N N' : BeaconNetwork ι) : Prop where
  air : N.air ⊆ N'.air
  others : ∀ k, k ≠ i → N'.stations k = N.stations k ∧ N'.heard k = N.heard k

/-- A step of the station `i` is a matter of its own table and its own beacon. -/
theorem NetOk.onlyAt (h : NetOk hosts N) (hat : OnlyAt i N N')
    (hair : ∀ t ∈ N'.air, t ∈ N.air ∨ BeaconOk hosts t)
    (hi : ∀ b, N'.stations i = some b → StationOk hosts N' i b.toAwdsRouting) :
    NetOk hosts N' := by
  constructor
  · intro t ht
    rcases hair t ht with hold | hnew
    · exact h.air t hold
    · exact hnew
  · intro k b hb
    by_cases hk : k = i
    · subst hk
      exact hi b hb
    · obtain ⟨hsame, hheard⟩ := hat.others k hk
      have hstation := h.stations k b (hsame ▸ hb)
      refine ⟨hstation.table, fun nd hnd => ?_⟩
      obtain ⟨t, ht, hid, hknows⟩ := hstation.entries nd hnd
      exact ⟨t, hat.air ht, hid, hheard ▸ hknows⟩

/-- The beacon of a station in order. -/
theorem StationOk.beaconOk {q : BasePacket} (h : StationOk hosts N i b.toAwdsRouting)
    (hsends : Sends (hosts i) b b' q) : BeaconOk hosts ⟨i, q, N.heard i⟩ where
  src := hsends.src
  counts := hsends.counts
  fits := hsends.fits
  list := by
    intro x hx
    have hany := Except.ok.inj ((hsends.list x).symm.trans hx)
    obtain ⟨nd, hnd, hgood⟩ := List.any_eq_true.mp hany
    rw [Bool.and_eq_true, decide_eq_true_eq] at hgood
    obtain ⟨t, -, hid, hknows⟩ := h.entries nd hnd
    exact ⟨t.sender, hid.trans hgood.1, hknows.active hgood.2⟩

/-- A received beacon has the contents of the one that was sent. -/
theorem BeaconOk.readsAs {p : BasePacket} (h : BeaconOk hosts t)
    (harr : t.packet.Arrives p) : ReadsAs p t.packet :=
  fun k _ hhi => harr.bytes k (hhi.trans_le h.fits)

/-- A beacon keeps the table of the station that hears it in order. -/
theorem StationOk.refreshNeigh (hid : Function.Injective fun i => (hosts i).myNodeId)
    {r r₀ r' : AwdsRouting} {p : BasePacket} {time : AbsTime} {isNew : Bool}
    (h : StationOk hosts N i r) (hns : r₀.neighbors = r.neighbors) (ht : t ∈ N.air)
    (hbeacon : BeaconOk hosts t) (hreads : ReadsAs p t.packet) (hair : N'.air = N.air)
    (hheard : N'.heard i = insert (t.sender, t.packet) (N.heard i))
    (hcall : r₀.refreshNeigh time p = .ok (r', isNew)) : StationOk hosts N' i r' := by
  have htable := h.table.of_neighbors hns
  have hsrc : SrcPacket.getSrc p = (hosts t.sender).myNodeId := hreads.getSrc.trans hbeacon.src
  have hnow : (t.sender, t.packet) ∈ N'.heard i := hheard ▸ Set.mem_insert _ _
  have hsub : N.heard i ⊆ N'.heard i := hheard ▸ Set.subset_insert _ _
  refine ⟨htable.refreshNeigh hcall, fun nd' hnd' => ?_⟩
  rcases refreshNeigh_entries hcall nd' hnd' with hold | ⟨hid', rfl | hlater⟩
  · obtain ⟨t', ht', hid', hknows⟩ := h.entries nd' (hns ▸ hold)
    exact ⟨t', hair ▸ ht', hid', hknows.keeps hsub (fun lb hlb hr => ⟨lb, hlb, hr⟩) rfl id⟩
  · exact ⟨t, hair ▸ ht, hsrc.symm.trans hid'.symm, knows_first hreads hnow _⟩
  · obtain ⟨nd, hnd, hndid, lb, hlb, rfl⟩ := hlater
    obtain ⟨t', -, hsender, hknows⟩ := h.entries nd (hns ▸ hnd)
    -- only one station has the address
    have hsame : t'.sender = t.sender := hid (hsender.trans (hndid.trans hsrc))
    rw [hsame] at hknows
    exact ⟨t, hair ▸ ht, hsrc.symm.trans hid'.symm, hknows.noteBeacon hlb hreads hsub hnow⟩

/-- The entries of another table, behind work that hears nothing. -/
theorem StationOk.map {r r' : AwdsRouting} (h : StationOk hosts N i r) (htab : TableOk r')
    (hair : N.air ⊆ N'.air) (hheard : N'.heard i = N.heard i)
    (hns : ∀ nd' ∈ r'.neighbors, ∃ nd ∈ r.neighbors, nd'.id = nd.id ∧
      ∀ (j : ι) (q : BasePacket) (H : Set (ι × BasePacket)), Knows nd j q H → Knows nd' j q H) :
    StationOk hosts N' i r' := by
  refine ⟨htab, fun nd' hnd' => ?_⟩
  obtain ⟨nd, hnd, hid, hkeeps⟩ := hns nd' hnd'
  obtain ⟨t, ht, hsender, hknows⟩ := h.entries nd hnd
  refine ⟨t, hair ht, hsender.trans hid.symm, hkeeps _ _ _ ?_⟩
  rw [hheard]
  exact hknows

variable [DecidableEq ι]

/-- Another state of a station, and nothing else. -/
theorem onlyAt_withStation (N : BeaconNetwork ι) (i : ι) (b : Option BeaconRouting) :
    OnlyAt i N (N.withStation i b) :=
  ⟨subset_rfl, fun _ hk => ⟨Function.update_of_ne hk _ _, rfl⟩⟩

/-- A station reads back what was written for it. -/
@[simp] theorem stations_withStation (N : BeaconNetwork ι) (i : ι) (b : Option BeaconRouting) :
    (N.withStation i b).stations i = b := Function.update_self _ _ _

/-- A station that does anything but hearing beacons. -/
theorem NetOk.withStation (h : NetOk hosts N)
    (hb : StationOk hosts N i b.toAwdsRouting) : NetOk hosts (N.withStation i (some b)) := by
  refine h.onlyAt (onlyAt_withStation N i (some b)) (fun t ht => .inl ht) fun b' hb' => ?_
  rw [stations_withStation] at hb'
  cases hb'
  exact ⟨hb.table, hb.entries⟩

/-- A station that is started knows nobody. -/
theorem NetOk.start (h : NetOk hosts N) (i : ι) (empty : b.neighbors = []) :
    NetOk hosts ((N.withStation i (some b)).withHeard i ∅) := by
  have hat : OnlyAt i N ((N.withStation i (some b)).withHeard i ∅) :=
    ⟨subset_rfl, fun k hk => ⟨Function.update_of_ne hk _ _, Function.update_of_ne hk _ _⟩⟩
  refine h.onlyAt hat (fun t ht => .inl ht) fun b' hb' => ?_
  cases (stations_withStation N i (some b)).symm.trans hb'
  constructor
  · exact ⟨empty ▸ List.Pairwise.nil, empty ▸ Nat.zero_le _⟩
  · simp [empty]

/-- A station sends a beacon. -/
theorem NetOk.send {clock : Clock} {n : Nat} {q : BasePacket} (h : NetOk hosts N)
    (hb : N.stations i = some b) (hsent : b.sendBeacon (hosts i) clock n = .ok (b', q)) :
    NetOk hosts ((N.transmit i q).withStation i (some b')) := by
  have hstation := h.stations i b hb
  have hsends := sends_sendBeacon hstation.table hsent
  have hat : OnlyAt i N (N.transmit i q) :=
    ⟨Set.subset_insert _ _, fun _ _ => ⟨rfl, rfl⟩⟩
  have htransmit : NetOk hosts (N.transmit i q) := by
    refine h.onlyAt hat (fun t ht => ?_) fun b₀ hb₀ => ?_
    · rcases ht with rfl | ht
      · exact .inr (hstation.beaconOk hsends)
      · exact .inl ht
    · have hold := h.stations i b₀ hb₀
      exact hold.map hold.table hat.air rfl fun nd hnd => ⟨nd, hnd, rfl, fun _ _ _ hk => hk⟩
  refine htransmit.withStation (hstation.map (hstation.table.flagged hsends.neighbors) hat.air
    rfl fun nd' hnd' => ?_)
  rw [hsends.neighbors] at hnd'
  obtain ⟨nd, hnd, rfl⟩ := List.mem_map.mp hnd'
  exact ⟨nd, hnd, rfl, fun _ _ _ hk => hk.flagged⟩

/-- A station hears a beacon. -/
theorem NetOk.deliver (hid : Function.Injective fun i => (hosts i).myNodeId)
    {clock : Clock} {p : BasePacket} {r' : AwdsRouting} (h : NetOk hosts N) (ht : t ∈ N.air)
    (harr : t.packet.Arrives p) (hb : N.stations i = some b)
    (hreceived : b.toAwdsRouting.recvBeacon (hosts i) clock p = .ok r') :
    NetOk hosts ((N.withStation i (some { b with toAwdsRouting := r' })).withHeard i
      (insert (t.sender, t.packet) (N.heard i))) := by
  let N₁ := (N.withStation i (some { b with toAwdsRouting := r' })).withHeard i
    (insert (t.sender, t.packet) (N.heard i))
  have hstation := h.stations i b hb
  have hbeacon := h.air t ht
  -- Only the station that hears the beacon changes.
  have hat : OnlyAt i N N₁ :=
    ⟨subset_rfl, fun k hk => ⟨Function.update_of_ne hk _ _, Function.update_of_ne hk _ _⟩⟩
  have hheard : N₁.heard i = insert (t.sender, t.packet) (N.heard i) :=
    Function.update_self _ _ _
  refine h.onlyAt hat (fun t ht => .inl ht) fun b' hb' => ?_
  cases (stations_withStation N i (some { b with toAwdsRouting := r' })).symm.trans hb'
  rcases recvBeacon_cases hreceived with hsame | ⟨r₀, isNew, hns, hcall⟩
  · -- a beacon with a wrong signature is not entered
    refine ⟨hstation.table.of_neighbors hsame, fun nd hnd => ?_⟩
    obtain ⟨t', ht', hsender, hknows⟩ := hstation.entries nd (hsame ▸ hnd)
    refine ⟨t', ht', hsender, hknows.keeps ?_ (fun lb hlb hr => ⟨lb, hlb, hr⟩) rfl id⟩
    rw [hheard]
    exact Set.subset_insert _ _
  · -- The beacon is entered, and it was on the air.
    have hreads := (hbeacon.readsAs harr).setType .beacon
    exact hstation.refreshNeigh hid hns ht hbeacon hreads rfl hheard hcall

/-- A station looks for links that have failed. -/
theorem NetOk.check {clock : Clock} {r' : AwdsRouting} {sent : Option BasePacket}
    (h : NetOk hosts N) (hb : N.stations i = some b)
    (hchecked : b.toAwdsRouting.checkLinkFailure (hosts i) clock = .ok (r', sent)) :
    NetOk hosts (N.withStation i (some { b with toAwdsRouting := r' })) := by
  have hstation := h.stations i b hb
  have hns := checkLinkFailure_neighbors hchecked
  refine h.withStation (hstation.map (hstation.table.checkLinkFailure hchecked) subset_rfl rfl
    fun nd' hnd' => ?_)
  change nd' ∈ r'.neighbors at hnd'
  rw [hns] at hnd'
  obtain ⟨nd, hnd, rfl⟩ := List.mem_map.mp (List.mem_of_mem_filter hnd')
  exact ⟨nd, hnd, (deactivated_keeps _ nd).1, fun _ _ _ hk => hk.deactivated _⟩

/-- One step of the network. -/
theorem NetOk.step (hid : Function.Injective fun i => (hosts i).myNodeId) (h : NetOk hosts N)
    (hstep : Step hosts N N') : NetOk hosts N' := by
  cases hstep with
  | start i b empty => exact h.start i empty
  | send i clock n b b' q running sent => exact h.send running sent
  | deliver i clock b t p r' air arrives running beacon received =>
    exact h.deliver hid air arrives running received
  | check i clock b r' sent running checked => exact h.check running checked
  | elsewhere i b b' running same =>
    have hstation := h.stations i b running
    exact h.withStation (hstation.map (hstation.table.of_neighbors same) subset_rfl rfl
      fun nd hnd => ⟨nd, same ▸ hnd, rfl, fun _ _ _ hk => hk⟩)
  | stop i =>
    refine h.onlyAt (onlyAt_withStation N i none) (fun t ht => .inl ht) fun b' hb' => ?_
    cases (stations_withStation N i none).symm.trans hb'

/-- The invariant holds in all runs. -/
theorem netOk_run (hid : Function.Injective fun i => (hosts i).myNodeId)
    (h : Run hosts N) : NetOk hosts N := by
  induction h with
  | start => exact ⟨fun t ht => absurd ht (Set.notMem_empty t), fun i b hb => by cases hb⟩
  | step N N' _ hstep ih => exact ih.step hid hstep

/-- In a network of stations with different addresses that run this program, whatever beacons are
lost, doubled, delayed or overtaken by others, and however often stations start again: take a
neighbour that is bidirectionally good. Its `lastBeacon`, the last one that was heard of it, has
the contents of a beacon `t` that it sent. This beacon lists the station, the station has heard
thirteen different beacons of the neighbour since it was started, and the neighbour had heard
thirteen different beacons of the station when it sent `t`. -/
theorem isBidiGood_heard (hid : Function.Injective fun i => (hosts i).myNodeId)
    (hrun : Run hosts N) (hb : N.stations i = some b) (hnd : nd ∈ b.neighbors)
    (hgood : nd.isBidiGood (hosts i).myNodeId = .ok true) :
    ∃ t ∈ N.air, (∃ lb, nd.lastBeacon = some lb ∧ ReadsAs lb t.packet) ∧
      (hosts t.sender).myNodeId = nd.id ∧ (t.sender, t.packet) ∈ N.heard i ∧
      Beacon.hasNeigh t.packet (hosts i).myNodeId = .ok true ∧
      HeardThirteen (N.heard i) t.sender ∧ HeardThirteen t.heard i := by
  have hok := netOk_run hid hrun
  obtain ⟨t, ht, hsender, hknows⟩ := (hok.stations i b hb).entries nd hnd
  have hbeacon := hok.air t ht
  obtain ⟨lb, hlb, hreads⟩ := hknows.last
  unfold NodeDescr.isBidiGood at hgood
  rw [hlb] at hgood
  simp only [hreads.listsAs.hasNeigh hbeacon.counts] at hgood
  obtain ⟨listed, hlisted, hgood⟩ := bind_eq_ok.mp hgood
  -- both the list of the beacon and the entry say yes
  cases listed with
  | false => cases hgood
  | true =>
    have hactive : nd.active = true := Except.ok.inj hgood
    obtain ⟨j, hj, hheard⟩ := hbeacon.list _ hlisted
    cases hid hj
    have hlast : ∃ lb, nd.lastBeacon = some lb ∧ ReadsAs lb t.packet := ⟨lb, hlb, hreads⟩
    exact ⟨t, ht, hlast, hsender, hknows.heard, hlisted, hknows.active hactive, hheard⟩

end Handshake

/-! ### Two stations -/

section Pair

/-- The station `s` of a pair sends a beacon, and the other one hears it. -/
def beaconTo (s : Bool) (a b : BeaconRouting) : Result (BeaconRouting × BeaconRouting) := do
  let (a, q) ← a.sendBeacon (pairHosts s) ⟨0, 0⟩ 1
  if b.toAwdsRouting.recvPacket (pairHosts !s) q = some .beacon ∧ q.size ≤ BasePacket.maxSize then
    let r ← b.toAwdsRouting.recvBeacon (pairHosts !s) ⟨0, 0⟩ q
    .ok (a, { b with toAwdsRouting := r })
  else .error .assertion

/-- Both stations do so in turn, `n` times. -/
def exchange : Nat → BeaconRouting → BeaconRouting → Result (BeaconRouting × BeaconRouting)
  | 0, a, b => .ok (a, b)
  | n + 1, a, b => do
    let (a, b) ← beaconTo false a b
    let (b, a) ← beaconTo true b a
    exchange n a b

variable {N : BeaconNetwork Bool} {s : Bool} {a a' b b' : BeaconRouting}

/-- A beacon that is heard is two steps of the network. -/
theorem Run.beaconTo (h : Run pairHosts N) (ha : N.stations s = some a)
    (hb : N.stations (!s) = some b) (hcall : beaconTo s a b = .ok (a', b')) :
    ∃ N', Run pairHosts N' ∧ N'.stations s = some a' ∧ N'.stations (!s) = some b' := by
  unfold Proofs.beaconTo at hcall
  obtain ⟨⟨a₁, q⟩, hsent, hcall⟩ := bind_eq_ok.mp hcall
  simp only at hcall
  split at hcall
  · rename_i hheard
    obtain ⟨r, hreceived, hcall⟩ := bind_eq_ok.mp hcall
    cases hcall
    have hother : (!s) ≠ s := by cases s <;> decide
    let N₁ := (N.transmit s q).withStation s (some a')
    have hrun₁ : Run pairHosts N₁ := .step N N₁ h (.send N s ⟨0, 0⟩ 1 a a' q ha hsent)
    have hb₁ : N₁.stations (!s) = some b := (Function.update_of_ne hother _ _).trans hb
    have harr : q.Arrives q := ⟨le_rfl, hheard.2, fun _ _ => rfl, fun _ _ => .inr rfl⟩
    have hstep : Step pairHosts N₁ _ := .deliver N₁ (!s) ⟨0, 0⟩ b ⟨s, q, N.heard s⟩ q r
      (Set.mem_insert _ _) harr hb₁ hheard.1 hreceived
    refine ⟨_, .step N₁ _ hrun₁ hstep, ?_, ?_⟩
    · refine (Function.update_of_ne hother.symm _ _).trans ?_
      exact Function.update_self _ _ _
    · exact Function.update_self _ _ _
  · cases hcall

/-- So an exchange of beacons is a run. -/
theorem Run.exchange {n : Nat} (h : Run pairHosts N) (ha : N.stations false = some a)
    (hb : N.stations true = some b) (hcall : exchange n a b = .ok (a', b')) :
    ∃ N', Run pairHosts N' ∧ N'.stations false = some a' ∧ N'.stations true = some b' := by
  induction n generalizing N a b with
  | zero =>
    cases hcall
    exact ⟨N, h, ha, hb⟩
  | succ n ih =>
    rw [Proofs.exchange] at hcall
    obtain ⟨⟨a₁, b₁⟩, hfirst, hcall⟩ := bind_eq_ok.mp hcall
    obtain ⟨⟨b₂, a₂⟩, hsecond, hcall⟩ := bind_eq_ok.mp hcall
    obtain ⟨N₁, hrun₁, ha₁, hb₁⟩ := Run.beaconTo h ha hb hfirst
    obtain ⟨N₂, hrun₂, hb₂, ha₂⟩ := Run.beaconTo hrun₁ hb₁ ha₁ hsecond
    exact ih hrun₂ ha₂ hb₂ hcall

/-- A station of a pair when it has just been started. -/
def startedStation (s : Bool) : BeaconRouting :=
  { toAwdsRouting := pairRouting s, nextBeacon := 1 }

/-- Behind thirteen beacons in each direction the link is good. -/
theorem isBidiGood_heard_pair : ∃ (N : BeaconNetwork Bool) (b : BeaconRouting) (nd : NodeDescr),
    Run pairHosts N ∧ N.stations false = some b ∧ nd ∈ b.neighbors ∧
      nd.isBidiGood (pairHosts false).myNodeId = .ok true ∧
      ∃ t ∈ N.air, (∃ lb, nd.lastBeacon = some lb ∧ ReadsAs lb t.packet) ∧
        (pairHosts t.sender).myNodeId = nd.id ∧
        HeardThirteen (N.heard false) t.sender ∧ HeardThirteen t.heard false := by
  -- Two stations are started.
  let N₀ : BeaconNetwork Bool := ⟨fun _ => none, ∅, fun _ => ∅⟩
  let N₁ := (N₀.withStation false (some (startedStation false))).withHeard false ∅
  let N₂ := (N₁.withStation true (some (startedStation true))).withHeard true ∅
  have hrun₁ : Run pairHosts N₁ :=
    .step N₀ N₁ .start (.start N₀ false (startedStation false) rfl)
  have hrun₂ : Run pairHosts N₂ :=
    .step N₁ N₂ hrun₁ (.start N₁ true (startedStation true) rfl)
  -- After thirteen beacons each way the link is good in both directions.
  obtain ⟨⟨a, b⟩, hcall, htest⟩ := exists_of_returnsWith (show returnsWith
    (exchange 13 (startedStation false) (startedStation true)) (fun x =>
      x.1.neighbors.any fun nd => returnsWith (nd.isBidiGood (pairHosts false).myNodeId) id)
    = true by decide +kernel)
  obtain ⟨nd, hnd, hgood⟩ := List.any_eq_true.mp htest
  obtain ⟨good, hgood, htrue⟩ := exists_of_returnsWith hgood
  cases good with
  | false => cases htrue
  | true =>
    obtain ⟨N, hrun, ha, -⟩ := Run.exchange hrun₂ rfl rfl hcall
    have hid : Function.Injective fun i => (pairHosts i).myNodeId := by decide
    obtain ⟨t, ht, hlast, hsender, -, -, hheard, hheard'⟩ :=
      isBidiGood_heard hid hrun ha hnd hgood
    exact ⟨N, a, nd, hrun, ha, hnd, hgood, t, ht, hlast, hsender, hheard, hheard'⟩

end Pair

end Awds.Proofs
