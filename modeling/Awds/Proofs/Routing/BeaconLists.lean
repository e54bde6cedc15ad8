import Awds.Lib.Bisection
import Awds.Proofs.Routing.Neighbors

/-!
# `Awds.Proofs.Routing.BeaconLists`: the two lists of a beacon

A beacon lists the good neighbours of a station in two parts, those that are MPRs in front. The
two counts are `char`s in the packet, so what a station reads from a beacon is between -128
and 127, and `hasMpr` and `hasNoMpr` search between bounds made of such numbers.

* `beacon_searches_end_iff`: for which beacons the searches end for every address and look at
  no entry but those of the list.
* `setNeigh_lists_good`: in the beacon that `setNeigh` makes they find the good neighbours.
-/

set_option autoImplicit false

namespace Awds.Proofs

open Awds.Lib Awds.AwdsRouting Awds.Beacon

/-! ### The searches in a beacon -/

section Searches

variable {p : BasePacket} {id : NodeId} {n : Nat} {a b : Int} {v : Bool}

/-- The entry `m` of the list in a beacon. -/
def neighIndex (p : BasePacket) (m : Int) : NodeId :=
  .fromArray (p.buffer.read (offsetLNeigh + m.toNat * NodeId.size) NodeId.size)

/-- The entry `m` is one of those that the beacon announces. -/
def Announced (p : BasePacket) (m : Int) : Prop :=
  0 ≤ m ∧ m < getNumNoMpr p + getNumMpr p

/-- A `signed char` of the header. -/
theorem signedByte_bounds (b : UInt8) : -128 ≤ signedByte b ∧ signedByte b ≤ 127 := by
  have hlt := b.toNat_lt
  unfold signedByte
  split <;> omega

/-- The range of the number of MPRs. -/
theorem getNumMpr_bounds (p : BasePacket) : -128 ≤ getNumMpr p ∧ getNumMpr p ≤ 127 :=
  signedByte_bounds _

/-- The range of the number of other stations. -/
theorem getNumNoMpr_bounds (p : BasePacket) : -128 ≤ getNumNoMpr p ∧ getNumNoMpr p ≤ 127 :=
  signedByte_bounds _

/-- An entry in the list is read where it stands. Only a negative index is an error. -/
theorem neighAt_of_nonneg {m : Int} (h : 0 ≤ m) : neighAt p m = .ok (neighIndex p m) := by
  obtain ⟨k, rfl⟩ := Int.eq_ofNat_of_zero_le h
  unfold neighAt
  simp only
  rw [if_neg (by show ¬((13 : Nat) : Int) + k * (6 : Nat) < 0; omega)]
  congr 3

/-- A search that ends is a run of the loop. -/
theorem binsearch_of_bisects (h : Bisects (Announced p) (neighIndex p) id n a b v) {k : Nat}
    (hk : n < k) : binsearch p id k a b = .ok v := by
  induction h generalizing k with
  -- The range is empty.
  | absent a =>
    obtain ⟨k, rfl⟩ : ∃ j, k = j + 1 := ⟨k - 1, by omega⟩
    simp [binsearch]
  -- The middle is the address.
  | @found a b turn ok eq =>
    obtain ⟨k, rfl⟩ : ∃ j, k = j + 1 := ⟨k - 1, by omega⟩
    rw [binsearch, if_neg turn]
    show (neighAt p (middle a b) >>= _) = _
    simp [neighAt_of_nonneg ok.1, except_bind_ok, eq]
  -- The middle is smaller, so the search goes on to the right of it.
  | @right n a b v turn ok lt rest ih =>
    obtain ⟨k, rfl⟩ : ∃ j, k = j + 1 := ⟨k - 1, by omega⟩
    rw [binsearch, if_neg turn]
    show (neighAt p (middle a b) >>= _) = _
    rw [neighAt_of_nonneg ok.1, except_bind_ok]
    simp only [lt.ne, if_false, lt, if_true]
    exact ih (by omega)
  -- It is larger, so it goes on to the left.
  | @left n a b v turn ok gt rest ih =>
    obtain ⟨k, rfl⟩ : ∃ j, k = j + 1 := ⟨k - 1, by omega⟩
    rw [binsearch, if_neg turn]
    show (neighAt p (middle a b) >>= _) = _
    rw [neighAt_of_nonneg ok.1, except_bind_ok]
    simp only [gt.ne', if_false, not_lt.mpr gt.le]
    exact ih (by omega)

/-- The search for `id` between the bounds ends with the result `res`, and looks at announced
entries only. -/
def SearchEnds (p : BasePacket) (id : NodeId) (a b : Int) (res : Result Bool) : Prop :=
  ∃ n v, Bisects (Announced p) (neighIndex p) id n a b v ∧ res = .ok v

/-- The three searches end for every address and look at announced entries only. -/
structure SearchesEnd (p : BasePacket) : Prop where
  mpr : ∀ id, SearchEnds p id 0 (getNumMpr p) (hasMpr p id)
  noMpr : ∀ id, SearchEnds p id (getNumMpr p) (getNumMpr p + getNumNoMpr p) (hasNoMpr p id)
  neigh : ∀ id, ∃ v, hasNeigh p id = .ok v

/-- A bisection needs no more passes than the model gives it. -/
theorem searchEnds_of_bisects (h : ∃ n v, n ≤ 512 ∧
    Bisects (Announced p) (neighIndex p) id n a b v) :
    SearchEnds p id a b (hasNeighBinsearch p a b id) := by
  obtain ⟨n, v, hn, hbis⟩ := h
  exact ⟨n, v, hbis, binsearch_of_bisects hbis (by omega)⟩

/-- `hasNeigh` is made of the other two. -/
theorem searchesEnd_of (hmpr : ∀ id, SearchEnds p id 0 (getNumMpr p) (hasMpr p id))
    (hnoMpr : ∀ id, SearchEnds p id (getNumMpr p) (getNumMpr p + getNumNoMpr p)
      (hasNoMpr p id)) : SearchesEnd p where
  mpr := hmpr
  noMpr := hnoMpr
  neigh := by
    intro id
    obtain ⟨-, v, -, hv⟩ := hmpr id
    obtain ⟨-, w, -, hw⟩ := hnoMpr id
    rw [hasNeigh, hv, except_bind_ok]
    cases v with
    | true => exact ⟨true, by simp⟩
    | false => exact ⟨w, by simp [hw]⟩

/-- The counts of the beacon are not negative. -/
def CountsNonneg (p : BasePacket) : Prop := 0 ≤ getNumMpr p ∧ 0 ≤ getNumNoMpr p

/-- The beacon announces -1 MPRs and at least two other stations. The first entry is the
greatest address, and one of the entries that a search comes to on its way down from the end of
the list is the address 0. -/
structure StopsOnTheWay (p : BasePacket) : Prop where
  numMpr : getNumMpr p = -1
  numNoMpr : 2 ≤ getNumNoMpr p
  greatest : neighIndex p 0 = Fin.last _
  least : ∃ m, LeftTurn (getNumNoMpr p - 1) m ∧ neighIndex p m = 0

/-- With counts that are not negative the bounds are in the right order. -/
theorem searchesEnd_of_nonneg (h : CountsNonneg p) : SearchesEnd p := by
  have hmpr := getNumMpr_bounds p
  have hnoMpr := getNumNoMpr_bounds p
  obtain ⟨h0, h0'⟩ := h
  refine searchesEnd_of (fun id => searchEnds_of_bisects ?_) fun id => searchEnds_of_bisects ?_
  · obtain ⟨n, v, hn, hbis⟩ := bisects_of_le (Announced p) (neighIndex p) id
      (Int.le_refl 0) h0 fun i hi hib => ⟨hi, by omega⟩
    exact ⟨n, v, by omega, hbis⟩
  · obtain ⟨n, v, hn, hbis⟩ := bisects_of_le (Announced p) (neighIndex p) id
      (a := getNumMpr p) (b := getNumMpr p + getNumNoMpr p) h0 (by omega)
      fun i hi hib => ⟨by omega, by omega⟩
    exact ⟨n, v, by omega, hbis⟩

/-- The searches of a beacon with -1 MPRs end if they stop on the way. -/
theorem searchesEnd_of_stops (h : StopsOnTheWay p) : SearchesEnd p := by
  have hnoMpr := getNumNoMpr_bounds p
  have hcount := h.numMpr
  have htwo := h.numNoMpr
  refine searchesEnd_of (fun id => searchEnds_of_bisects ?_) fun id => searchEnds_of_bisects ?_
  · rw [hcount]
    obtain ⟨n, v, hn, hbis⟩ := bisects_of_le_first (Announced p) (neighIndex p) id
      ⟨Int.le_refl 0, by omega⟩ (by
        rw [h.greatest]
        exact Fin.le_last id)
    exact ⟨n, v, by omega, hbis⟩
  · rw [hcount]
    obtain ⟨m, hm, hzero⟩ := h.least
    rw [show getNumNoMpr p - 1 = -1 + getNumNoMpr p by omega] at hm
    obtain ⟨n, v, hn, hbis⟩ := hm.bisects (Announced p) (neighIndex p) id
      (by rw [hzero]; exact Fin.zero_le id) (by omega) fun i hi hib => ⟨hi, by omega⟩
    exact ⟨n, v, by omega, hbis⟩

/-- A beacon with a negative count whose searches end stops on the way. -/
theorem stops_of_searchesEnd (h : SearchesEnd p) (hneg : ¬CountsNonneg p) : StopsOnTheWay p := by
  obtain ⟨nf, vf, hfirst, -⟩ := h.mpr (Fin.last _)
  obtain ⟨nl, vl, hlast, -⟩ := h.noMpr 0
  by_cases hmpr : 0 ≤ getNumMpr p
  · -- The second part would end in front of its beginning.
    have hnoMpr : getNumNoMpr p < 0 := not_le.mp fun h0 => hneg ⟨hmpr, h0⟩
    have hin := hlast.first (by omega)
    unfold Announced at hin
    rcases le_or_gt 0 (getNumMpr p + (getNumMpr p + getNumNoMpr p)) with hsum | hsum
    · rw [middle_of_nonneg hsum] at hin
      omega
    · rw [middle_of_neg hsum] at hin
      omega
  · have hin := hfirst.first (by omega)
    unfold Announced at hin
    rw [middle_of_neg (by omega)] at hin
    -- The middle of 0 and a number below -1 is negative.
    have hone : getNumMpr p = -1 := by omega
    have htwo : 2 ≤ getNumNoMpr p := by omega
    rw [hone] at hfirst hlast
    obtain ⟨m, hm, hle⟩ := hlast.leftTurn (by omega)
    refine ⟨hone, htwo, Fin.last_le_iff.mp hfirst.le_first, m, ?_, Fin.le_zero_iff.mp hle⟩
    rwa [show getNumNoMpr p - 1 = -1 + getNumNoMpr p by omega]

/-- The three searches in a received beacon end for every address and look at no entry but
those that it announces if and only if both counts are at most 127 as bytes, or the entries
stop a search that begins in front of the list. -/
theorem beacon_searches_end_iff (p : BasePacket) :
    SearchesEnd p ↔ CountsNonneg p ∨ StopsOnTheWay p := by
  constructor
  · intro h
    by_cases hcounts : CountsNonneg p
    · exact .inl hcounts
    · exact .inr (stops_of_searchesEnd h hcounts)
  · rintro (h | h)
    · exact searchesEnd_of_nonneg h
    · exact searchesEnd_of_stops h

/-- A beacon of the station 1 that announces -1 MPRs and two other stations, 2 and 3. -/
def hungBeacon : BasePacket :=
  setNumMpr (setNumNoMpr (beaconOf 1 1 1000 [2, 3]) 2) 0xff

/-- The search for the station 5 in it does not end. -/
theorem hung_beacon : ¬∀ p, SearchesEnd p := by
  intro hclaim
  obtain ⟨n, v, hsearch, -⟩ := (hclaim hungBeacon).mpr 5
  have hcount : getNumMpr hungBeacon = -1 := by decide
  rw [hcount] at hsearch
  exact absurd hsearch.le_first (by decide)

end Searches

/-! ### The beacon of a station -/

section SetNeigh

variable {r : AwdsRouting} {p q : BasePacket} {nds : List NodeDescr} {mpr : Bool}

/-- The good neighbours of one part. -/
def goodOf (mpr : Bool) (nds : List NodeDescr) : List NodeDescr :=
  nds.filter fun nd => nd.isGood && nd.mpr == mpr

/-- The bytes of a part. -/
def idBytes (nds : List NodeDescr) : List (List UInt8) := nds.map fun nd => nd.id.toArray

/-- Every address has six bytes. -/
theorem length_flatten_idBytes (nds : List NodeDescr) :
    (idBytes nds).flatten.length = nds.length * NodeId.size := by
  induction nds with
  | nil => rfl
  | cons nd nds ih =>
    simp only [idBytes, List.map_cons, List.flatten_cons, List.length_append,
      NodeId.length_toArray, List.length_cons] at ih ⊢
    rw [ih, Nat.succ_mul]
    exact Nat.add_comm _ _

/-- A loop of `setNeigh` writes the addresses of its part one behind the other. -/
theorem insertNeigh_eq (mpr : Bool) (nds : List NodeDescr) (num addr : Nat) (p : BasePacket) :
    insertNeigh mpr nds num addr p = (num + (goodOf mpr nds).length,
      addr + (goodOf mpr nds).length * NodeId.size,
      p.write addr (idBytes (goodOf mpr nds)).flatten) := by
  induction nds generalizing num addr p with
  | nil => simp [insertNeigh, goodOf, idBytes, BasePacket.write]
  | cons nd nds ih =>
    rw [insertNeigh]
    cases hgood : nd.isGood && nd.mpr == mpr with
    | true =>
      have hcons : goodOf mpr (nd :: nds) = nd :: goodOf mpr nds := by simp [goodOf, hgood]
      rw [if_pos rfl, ih, hcons]
      refine Prod.ext ?_ (Prod.ext ?_ ?_)
      · simp only [List.length_cons]
        omega
      · simp only [List.length_cons, Nat.succ_mul]
        omega
      · -- The next address begins where this one ends.
        have hlen : nd.id.toArray.length = NodeId.size := NodeId.length_toArray _
        simp only [BasePacket.write, idBytes, List.map_cons, List.flatten_cons]
        rw [← Buffer.write_write_append, hlen]
    | false =>
      have hcons : goodOf mpr (nd :: nds) = goodOf mpr nds := by simp [goodOf, hgood]
      rw [if_neg (by simp), ih, hcons]

/-- The neighbours in the order of the beacon. -/
def listOf (r : AwdsRouting) : List NodeDescr :=
  goodOf true r.neighbors ++ goodOf false r.neighbors

/-- A part of the neighbours has no more entries than all of them. -/
theorem length_goodOf (mpr : Bool) (nds : List NodeDescr) : (goodOf mpr nds).length ≤ nds.length :=
  List.length_filter_le _ _

/-- The good neighbours are some of the neighbours: each is in one part at most. -/
theorem length_listOf (r : AwdsRouting) : (listOf r).length ≤ r.neighbors.length := by
  unfold listOf
  induction r.neighbors with
  | nil => simp [goodOf]
  | cons nd nds ih =>
    rw [List.length_append] at ih ⊢
    -- A good neighbour stands in exactly one of the parts.
    simp only [goodOf, List.filter_cons, List.length_cons] at ih ⊢
    cases nd.isGood <;> cases nd.mpr <;> simp only [Bool.false_and, Bool.true_and, beq_iff_eq,
      if_true, Bool.false_eq_true, Bool.true_eq_false, if_false, List.length_cons] <;> omega

/-- The buffer of the beacon: the list, then the counts. -/
theorem setNeigh_buffer (r : AwdsRouting) (p : BasePacket) : (Beacon.setNeigh r p).buffer =
    ((p.buffer.write offsetLNeigh (idBytes (listOf r)).flatten).write offsetNumMpr
      [UInt8.ofNat (goodOf true r.neighbors).length]).write offsetNumNoMpr
        [UInt8.ofNat (goodOf false r.neighbors).length] := by
  unfold Beacon.setNeigh
  simp only [insertNeigh_eq, Nat.zero_add, setNumMpr, setNumNoMpr, BasePacket.write_buffer]
  rw [← length_flatten_idBytes, Buffer.write_write_append]
  simp [listOf, idBytes]

/-- The beacon ends behind its list. -/
theorem setNeigh_size (r : AwdsRouting) (p : BasePacket) :
    (Beacon.setNeigh r p).size = offsetLNeigh + (listOf r).length * NodeId.size := by
  unfold Beacon.setNeigh listOf
  simp only [insertNeigh_eq, Nat.zero_add, List.length_append]

/-- A count below 128 is read as it was written. -/
theorem signedByte_ofNat {n : Nat} (h : n < 128) : signedByte (UInt8.ofNat n) = n := by
  have hn : (UInt8.ofNat n).toNat = n := by
    rw [UInt8.toNat_ofNat', Nat.mod_eq_of_lt (by omega)]
  simp [signedByte, hn, h]

/-- The count of MPRs that is read. -/
theorem getNumMpr_setNeigh (hlen : r.neighbors.length ≤ maxNeighbors) :
    getNumMpr (Beacon.setNeigh r p) = (goodOf true r.neighbors).length := by
  have hle := length_goodOf true r.neighbors
  have hforty : maxNeighbors = 40 := rfl
  have hbyte : (Beacon.setNeigh r p).buffer offsetNumMpr
      = UInt8.ofNat (goodOf true r.neighbors).length := by
    rw [setNeigh_buffer, Buffer.write_of_ge _ _ (by simp), Buffer.write_singleton]
  rw [getNumMpr, hbyte]
  exact signedByte_ofNat (by omega)

/-- The number of good neighbours that are no MPRs fits in its byte, as there are 40 at most. -/
theorem getNumNoMpr_setNeigh (hlen : r.neighbors.length ≤ maxNeighbors) :
    getNumNoMpr (Beacon.setNeigh r p) = (goodOf false r.neighbors).length := by
  have hle := length_goodOf false r.neighbors
  have hforty : maxNeighbors = 40 := rfl
  have hbyte : (Beacon.setNeigh r p).buffer offsetNumNoMpr
      = UInt8.ofNat (goodOf false r.neighbors).length := by
    rw [setNeigh_buffer, Buffer.write_singleton]
  rw [getNumNoMpr, hbyte]
  exact signedByte_ofNat (by omega)

/-- The entries of the list. -/
theorem neighIndex_setNeigh {i : Nat} (hi : i < (listOf r).length) :
    neighIndex (Beacon.setNeigh r p) i = (listOf r)[i].id := by
  have hlen : ∀ bs ∈ idBytes (listOf r), bs.length = NodeId.size := by
    intro bs hbs
    obtain ⟨nd, -, rfl⟩ := List.mem_map.mp hbs
    exact NodeId.length_toArray _
  have hblock := Buffer.read_write_block p.buffer offsetLNeigh (idBytes (listOf r)) hlen i
    (by simpa [idBytes] using hi)
  unfold neighIndex
  -- The counts lie in front of the list.
  rw [Int.toNat_natCast, setNeigh_buffer, Buffer.read_write_disjoint _ _ (.inr (by
      show 11 + 1 ≤ 13 + i * 6
      omega)),
    Buffer.read_write_disjoint _ _ (.inr (by simp)), hblock]
  simp [idBytes]

/-- A search in a part of the list finds the neighbours of the part. -/
theorem search_part (hlen : r.neighbors.length ≤ maxNeighbors) (as bs cs : List NodeDescr)
    (hlist : listOf r = as ++ bs ++ cs) (hasc : Ascending NodeDescr.id bs) {a b : Int}
    (ha : a = as.length) (hb : b = as.length + bs.length) (id : NodeId) :
    hasNeighBinsearch (Beacon.setNeigh r p) a b id = .ok (bs.any fun nd => nd.id = id) := by
  have hcount : (getNumNoMpr (Beacon.setNeigh r p) + getNumMpr (Beacon.setNeigh r p) : Int)
      = (listOf r).length := by
    rw [getNumMpr_setNeigh hlen, getNumNoMpr_setNeigh hlen, listOf, List.length_append]
    omega
  have htotal : (listOf r).length = as.length + bs.length + cs.length := by
    rw [hlist, List.length_append, List.length_append]
  have hle := length_listOf r
  have hforty : maxNeighbors = 40 := rfl
  -- The entries between the bounds are those of the part.
  have hentry : ∀ k, (hk : k < bs.length) →
      neighIndex (Beacon.setNeigh r p) ((as.length + k : Nat) : Int) = bs[k].id := by
    intro k hk
    rw [neighIndex_setNeigh (by omega)]
    simp [hlist, hk]
  obtain ⟨n, v, hn, hbis⟩ := bisects_of_le (Announced (Beacon.setNeigh r p))
    (neighIndex (Beacon.setNeigh r p)) id (a := a) (b := b) (by omega) (by omega)
    fun i hi hib => ⟨by omega, by omega⟩
  have hspec := hbis.spec (by omega) (by omega) (by
    intro i j hi hij hj
    obtain ⟨k, rfl⟩ : ∃ k : Nat, i = ((as.length + k : Nat) : Int) := ⟨(i - a).toNat, by omega⟩
    obtain ⟨l, rfl⟩ : ∃ l : Nat, j = ((as.length + l : Nat) : Int) := ⟨(j - a).toNat, by omega⟩
    rw [hentry k (by omega), hentry l (by omega)]
    exact List.pairwise_iff_getElem.mp hasc k l (by omega) (by omega) (by omega))
  rw [hasNeighBinsearch, binsearch_of_bisects hbis (by omega)]
  congr 1
  rw [Bool.eq_iff_iff, hspec, List.any_eq_true]
  constructor
  · rintro ⟨i, hi, hib, heq⟩
    obtain ⟨k, rfl⟩ : ∃ k : Nat, i = ((as.length + k : Nat) : Int) := ⟨(i - a).toNat, by omega⟩
    rw [hentry k (by omega)] at heq
    exact ⟨bs[k], List.getElem_mem _, by simp [heq]⟩
  · rintro ⟨nd, hnd, heq⟩
    obtain ⟨k, hk, rfl⟩ := List.mem_iff_getElem.mp hnd
    exact ⟨_, by omega, by omega, (hentry k hk).trans (of_decide_eq_true heq)⟩

/-- The beacon lists the good neighbours of the station in their parts, and its size covers
them. -/
structure ListsGood (r : AwdsRouting) (b : BasePacket) : Prop where
  mpr : ∀ x, hasMpr b x = .ok (r.neighbors.any fun nd => nd.id = x && nd.isGood && nd.mpr)
  noMpr : ∀ x, hasNoMpr b x = .ok (r.neighbors.any fun nd => nd.id = x && nd.isGood && !nd.mpr)
  neigh : ∀ x, hasNeigh b x = .ok (r.neighbors.any fun nd => nd.id = x && nd.isGood)
  size : b.size = offsetLNeigh + (listed b).length * NodeId.size
  fits : b.size ≤ BasePacket.maxSize

/-- A search in a part of the list is a search in the list for both conditions. -/
theorem any_goodOf (mpr : Bool) (nds : List NodeDescr) (x : NodeId) :
    ((goodOf mpr nds).any fun nd => nd.id = x)
      = nds.any fun nd => nd.id = x && nd.isGood && nd.mpr == mpr := by
  rw [goodOf, List.any_filter]
  congr 1
  funext nd
  cases nd.isGood <;> cases nd.mpr == mpr <;> simp

/-- A good neighbour is in one of the two parts. -/
theorem any_parts (nds : List NodeDescr) (x : NodeId) :
    (nds.any fun nd => nd.id = x && nd.isGood) =
      ((nds.any fun nd => nd.id = x && nd.isGood && nd.mpr) ||
        nds.any fun nd => nd.id = x && nd.isGood && !nd.mpr) := by
  induction nds with
  | nil => rfl
  | cons nd nds ih =>
    simp only [List.any_cons, ih]
    cases nd.mpr <;> simp [Bool.or_assoc, Bool.or_left_comm]

/-- For every station whose neighbours are strictly ascending and fit into the array, the
searches in the beacon that `setNeigh` makes find the good neighbours that are MPRs, those that
are not, and all of them, and the size of the packet covers the list. -/
theorem setNeigh_lists_good (hasc : Ascending NodeDescr.id r.neighbors)
    (hlen : r.neighbors.length ≤ maxNeighbors) (p : BasePacket) :
    ListsGood r (Beacon.setNeigh r p) := by
  -- The first part of the list has the relays, in ascending order.
  have hmpr : ∀ x, hasMpr (Beacon.setNeigh r p) x
      = .ok (r.neighbors.any fun nd => nd.id = x && nd.isGood && nd.mpr) := by
    intro x
    have hpart := search_part (p := p) hlen [] (goodOf true r.neighbors)
      (goodOf false r.neighbors) (by rfl) (hasc.filter _)
      (a := 0) (b := getNumMpr (Beacon.setNeigh r p)) rfl
      (by simp [getNumMpr_setNeigh (p := p) hlen]) x
    rw [any_goodOf] at hpart
    simpa [hasMpr] using hpart
  -- The second part has the other good neighbours.
  have hnoMpr : ∀ x, hasNoMpr (Beacon.setNeigh r p) x
      = .ok (r.neighbors.any fun nd => nd.id = x && nd.isGood && !nd.mpr) := by
    intro x
    have hpart := search_part (p := p) hlen (goodOf true r.neighbors)
      (goodOf false r.neighbors) [] (by simp [listOf]) (hasc.filter _)
      (a := getNumMpr (Beacon.setNeigh r p))
      (b := getNumMpr (Beacon.setNeigh r p) + getNumNoMpr (Beacon.setNeigh r p))
      (getNumMpr_setNeigh hlen)
      (by rw [getNumMpr_setNeigh (p := p) hlen, getNumNoMpr_setNeigh (p := p) hlen]) x
    rw [any_goodOf] at hpart
    simpa [hasNoMpr] using hpart
  -- Together the two parts are as long as the list.
  have hcount : (getNumNoMpr (Beacon.setNeigh r p) + getNumMpr (Beacon.setNeigh r p)).toNat
      = (listOf r).length := by
    rw [getNumMpr_setNeigh hlen, getNumNoMpr_setNeigh hlen, listOf, List.length_append]
    omega
  have hle := length_listOf r
  have hforty : maxNeighbors = 40 := rfl
  constructor
  · exact hmpr
  · exact hnoMpr
  · -- An address is in the list if it is in one of the parts.
    intro x
    rw [hasNeigh, hmpr, except_bind_ok, hnoMpr]
    rw [any_parts]
    cases r.neighbors.any fun nd => nd.id = x && nd.isGood && nd.mpr <;> simp
  · rw [setNeigh_size, listed, List.length_map, List.length_range, hcount]
  · rw [setNeigh_size]
    show 13 + (listOf r).length * 6 ≤ 0x1000
    omega

/-- A station with three neighbours: an MPR, one that is not good and a good one that is no
MPR. -/
def threeNeighbors : AwdsRouting :=
  { pairRouting false with
    neighbors := [{ id := 3, lastBeacon := none, active := true },
      { id := 5, lastBeacon := none },
      { id := 7, lastBeacon := none, active := true, mpr := false }] }

/-- Its beacon lists the stations 3 and 7. -/
theorem setNeigh_lists_good_three :
    ListsGood threeNeighbors (Beacon.setNeigh threeNeighbors (BasePacket.new.setType .beacon)) :=
  setNeigh_lists_good (by simp [Ascending, threeNeighbors]) (by decide) _

end SetNeigh

end Awds.Proofs
