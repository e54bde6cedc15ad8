import Awds.Proofs.Routing.Flood
import Awds.Routing.Neighbors

/-!
# `Awds.Proofs.Routing.Neighbors`: the table of neighbours

The table is an array in ascending order of the addresses. `findNeigh` searches it, and what
it returns for an address that is not there says where the address belongs.

* `FindNeighEnds` is the loop of `findNeigh` as a derivation, so a derivation is a search
  that ends. `findNeigh_ends` and `findNeigh_spec` say that the search ends and what it
  finds.
* `refreshNeigh_cases` says what `refreshNeigh` can do: it refuses a beacon, enters a new
  neighbour or updates a known one.
* `NeighRun` is a sequence of calls of `refreshNeigh` and `removeOldNeigh`, and
  `neighbors_ascending` is the result about the table in all states they reach.
-/

set_option autoImplicit false

namespace Awds.Proofs

open Awds.Lib Awds.AwdsRouting

/-! ### Searching -/

section Search

variable {ns : List NodeDescr} {id : NodeId} {a b n : Nat} {v : Int}

/-- The loop of `findNeigh` with the bounds `a` and `b` ends and returns `v`. -/
inductive FindNeighEnds (ns : List NodeDescr) (id : NodeId) : Nat → Nat → Int → Prop
  | absent (a : Nat) : FindNeighEnds ns id a a (-a - 1)
  | found {a b : Nat} {nd : NodeDescr} (turn : a ≠ b) (entry : ns[(a + b) / 2]? = some nd)
      (eq : nd.id = id) : FindNeighEnds ns id a b ((a + b) / 2 : Nat)
  | right {a b : Nat} {nd : NodeDescr} {v : Int} (turn : a ≠ b)
      (entry : ns[(a + b) / 2]? = some nd) (lt : nd.id < id)
      (rest : FindNeighEnds ns id ((a + b) / 2 + 1) b v) : FindNeighEnds ns id a b v
  | left {a b : Nat} {nd : NodeDescr} {v : Int} (turn : a ≠ b)
      (entry : ns[(a + b) / 2]? = some nd) (gt : id < nd.id)
      (rest : FindNeighEnds ns id a ((a + b) / 2) v) : FindNeighEnds ns id a b v

/-- The bounds close in on each other, so the loop ends before its turns are used up. -/
theorem findNeighLoop_ends (hab : a ≤ b) (hb : b ≤ ns.length) (hn : b - a < n) :
    FindNeighEnds ns id a b (findNeighLoop ns id n a b) := by
  induction n generalizing a b with
  | zero => omega
  | succ n ih =>
    rw [findNeighLoop]
    split
    · rename_i heq
      subst heq
      exact .absent a
    rename_i hne
    obtain ⟨nd, hnd⟩ : ∃ nd, ns[(a + b) / 2]? = some nd :=
      ⟨_, List.getElem?_eq_getElem (by omega)⟩
    simp only [hnd]
    split
    · exact .found hne hnd ‹_›
    split
    · exact .right hne hnd ‹_› (ih (by omega) hb (by omega))
    · exact .left hne hnd (lt_of_le_of_ne (not_lt.mp ‹_›) (Ne.symm ‹_›))
        (ih (by omega) (by omega) (by omega))

/-- `findNeigh` ends. -/
theorem findNeigh_ends (r : AwdsRouting) (id : NodeId) :
    FindNeighEnds r.neighbors id 0 r.neighbors.length (r.findNeigh id) :=
  findNeighLoop_ends (Nat.zero_le _) (Nat.le_refl _) (by omega)

/-- The index that a search returns holds the address. This needs no order. -/
theorem FindNeighEnds.holds (h : FindNeighEnds ns id a b v) (hv : 0 ≤ v) :
    ∃ nd, ns[v.toNat]? = some nd ∧ nd.id = id := by
  induction h with
  | absent a => omega
  | found turn entry eq => exact ⟨_, entry, eq⟩
  | right _ _ _ _ ih => exact ih hv
  | left _ _ _ _ ih => exact ih hv

/-- What a search in an ascending array returns: an index that holds the address, or the place
of the address in the negative. The entries outside of the bounds are on the right side of
it. -/
theorem FindNeighEnds.spec (hasc : Ascending NodeDescr.id ns) (h : FindNeighEnds ns id a b v)
    (hb : b ≤ ns.length) (hbelow : ∀ x ∈ ns.take a, x.id < id)
    (habove : ∀ x ∈ ns.drop b, id < x.id) :
    (∃ i nd, v = (i : Nat) ∧ ns[i]? = some nd ∧ nd.id = id) ∨
      ∃ p : Nat, v = -p - 1 ∧ InsertPos NodeDescr.id ns id p := by
  induction h with
  | absent a => exact .inr ⟨a, rfl, hb, hbelow, habove⟩
  | found turn entry eq => exact .inl ⟨_, _, rfl, entry, eq⟩
  | right turn entry lt rest ih => exact ih hb (hasc.take_lt entry lt) habove
  | left turn entry gt rest ih =>
    have hlt := (List.getElem?_eq_some_iff.mp entry).1
    exact ih (Nat.le_of_lt hlt) hbelow (hasc.lt_drop entry gt)

/-- What `findNeigh` returns. -/
theorem findNeigh_spec {r : AwdsRouting} (hasc : Ascending NodeDescr.id r.neighbors)
    (id : NodeId) :
    (∃ i nd, r.findNeigh id = (i : Nat) ∧ r.neighbors[i]? = some nd ∧ nd.id = id) ∨
      ∃ p : Nat, r.findNeigh id = -p - 1 ∧ InsertPos NodeDescr.id r.neighbors id p :=
  (findNeigh_ends r id).spec hasc (Nat.le_refl _) (by simp) (by simp)

/-- An address with a place in the array is not in it. -/
theorem InsertPos.not_mem {p : Nat} (h : InsertPos NodeDescr.id ns id p) :
    ∀ nd ∈ ns, nd.id ≠ id := by
  intro nd hnd heq
  rw [← List.take_append_drop p ns] at hnd
  rcases List.mem_append.mp hnd with hnd | hnd
  · exact (heq ▸ h.below nd hnd).false
  · exact (heq ▸ h.above nd hnd).false

/-- `findNeigh` returns a negative number exactly if the address is not in the table. -/
theorem findNeigh_neg_iff {r : AwdsRouting} (hasc : Ascending NodeDescr.id r.neighbors)
    (id : NodeId) : r.findNeigh id < 0 ↔ ∀ nd ∈ r.neighbors, nd.id ≠ id := by
  constructor
  · intro hneg
    rcases findNeigh_spec hasc id with ⟨i, nd, hi, -⟩ | ⟨p, -, hp⟩
    · omega
    · exact InsertPos.not_mem hp
  · intro habsent
    rcases findNeigh_spec hasc id with ⟨i, nd, -, hnd, hid⟩ | ⟨p, hp, -⟩
    · exact absurd hid (habsent nd (List.mem_of_getElem? hnd))
    · omega

end Search

/-! ### What `refreshNeigh` can do -/

section Refresh

variable {r r' : AwdsRouting} {t : AbsTime} {p last : BasePacket} {nd : NodeDescr}

/-- Arming the check of a link does not touch the table. -/
@[simp] theorem armLinkCheck_neighbors (b : Bool) :
    (r.armLinkCheck nd b).neighbors = r.neighbors := by
  unfold armLinkCheck
  split <;> rfl

/-- It does not touch the counters, either. -/
@[simp] theorem armLinkCheck_hop2list (b : Bool) :
    (r.armLinkCheck nd b).hop2list = r.hop2list := by
  unfold armLinkCheck
  split <;> rfl

/-- A beacon does not change the address of a neighbour, and it is the last one then. -/
theorem noteBeacon_spec (nd : NodeDescr) (last p : BasePacket) (t : AbsTime) :
    (nd.noteBeacon last p t).1.id = nd.id ∧ (nd.noteBeacon last p t).1.lastBeacon = some p ∧
      (nd.noteBeacon last p t).1.lastBeaconTime = t ∧
      (nd.noteBeacon last p t).1.beaconInterval = Beacon.getPeriod p ∧
      (nd.noteBeacon last p t).1.linkValidity
        = t + Beacon.getPeriod p * NodeDescr.nrBeaconTriggerFail := by
  unfold NodeDescr.noteBeacon NodeDescr.updateActive
  simp only
  split <;> exact ⟨rfl, rfl, rfl, rfl, rfl⟩

/-- The known neighbour that a beacon updates. -/
structure Updates (r r' : AwdsRouting) (t : AbsTime) (p : BasePacket) (idx : Nat)
    (nd : NodeDescr) (last : BasePacket) : Prop where
  entry : r.neighbors[idx]? = some nd
  src : nd.id = SrcPacket.getSrc p
  beacon : nd.lastBeacon = some last
  result : ∃ h, Beacon.remove2Hop last r.hop2list = .ok h ∧
    r' = armLinkCheck { r with
      neighbors := r.neighbors.set idx (nd.noteBeacon last p t).1
      hop2list := Beacon.add2Hop p h } (nd.noteBeacon last p t).1 (nd.noteBeacon last p t).2

/-- What a call of `refreshNeigh` that returns has done. -/
theorem refreshNeigh_cases {isNew : Bool} (h : r.refreshNeigh t p = .ok (r', isNew)) :
    p.getType = .beacon ∧
    ((r.findNeigh (SrcPacket.getSrc p) < 0 ∧ r.neighbors.length = maxNeighbors ∧ r' = r ∧
        isNew = false) ∨
      (r.findNeigh (SrcPacket.getSrc p) < 0 ∧ r.neighbors.length < maxNeighbors ∧
        r' = r.addNeigh p t (-r.findNeigh (SrcPacket.getSrc p) - 1).toNat ∧ isNew = true) ∨
      (0 ≤ r.findNeigh (SrcPacket.getSrc p) ∧ r.neighbors.length < maxNeighbors ∧
        isNew = false ∧ ∃ nd last,
          Updates r r' t p (r.findNeigh (SrcPacket.getSrc p)).toNat nd last)) := by
  unfold refreshNeigh at h
  simp only at h
  split at h
  · cases h
  rename_i htype
  refine ⟨not_not.mp htype, ?_⟩
  split at h
  · rename_i hfull
    cases h
    exact .inl ⟨hfull.1, hfull.2, rfl, rfl⟩
  split at h
  · cases h
  rename_i hroom
  split at h
  · rename_i hneg
    split at h
    · cases h
    cases h
    exact .inr (.inl ⟨hneg, not_not.mp hroom, rfl, rfl⟩)
  · rename_i hpos
    obtain ⟨r1, hrun, h⟩ := bind_eq_ok.mp h
    cases h
    refine .inr (.inr ⟨not_lt.mp hpos, not_not.mp hroom, rfl, ?_⟩)
    -- The index holds the source of the beacon.
    obtain ⟨nd, hnd, hid⟩ := (findNeigh_ends r (SrcPacket.getSrc p)).holds (not_lt.mp hpos)
    unfold updateNeigh at hrun
    rw [hnd] at hrun
    simp only at hrun
    split at hrun
    · cases hrun
    · rename_i last hlast
      obtain ⟨hop, hremove, hrun⟩ := bind_eq_ok.mp hrun
      cases hrun
      exact ⟨nd, last, hnd, hid, hlast, hop, hremove, rfl⟩

/-- `addNeigh` in terms of the entry behind its first beacon. -/
theorem addNeigh_eq (r : AwdsRouting) (p : BasePacket) (t : AbsTime) (idx : Nat) {b : Bool}
    (h : (NodeDescr.init (SrcPacket.getSrc p) p t).noteBeacon p p t = (nd, b)) :
    r.addNeigh p t idx = { r with
      neighbors := r.neighbors.take idx ++ nd :: r.neighbors.drop idx
      hop2list := Beacon.add2Hop p r.hop2list }.armLinkCheck nd b := by
  rw [addNeigh, h]

/-- The table behind `addNeigh`. -/
theorem addNeigh_neighbors (r : AwdsRouting) (p : BasePacket) (t : AbsTime) (idx : Nat) :
    ∃ nd, nd.id = SrcPacket.getSrc p ∧ nd.lastBeacon = some p ∧ nd.lastBeaconTime = t ∧
      nd.beaconInterval = Beacon.getPeriod p ∧
      (r.addNeigh p t idx).neighbors = r.neighbors.take idx ++ nd :: r.neighbors.drop idx := by
  obtain ⟨hid, hlast, htime, hinterval, -⟩ :=
    noteBeacon_spec (NodeDescr.init (SrcPacket.getSrc p) p t) p p t
  refine ⟨_, hid, hlast, htime, hinterval, ?_⟩
  rw [addNeigh_eq _ _ _ _ (Prod.mk.eta).symm, armLinkCheck_neighbors]

end Refresh

/-! ### Runs -/

/-- A call that changes the table. -/
inductive NeighOp where
  | refreshNeigh (t : AbsTime) (p : BasePacket)
  | removeOldNeigh (now : AbsTime)

/-- The effect of a call. -/
def NeighOp.exec (r : AwdsRouting) : NeighOp → Result AwdsRouting
  | .refreshNeigh t p => do
    let (r, _) ← r.refreshNeigh t p
    .ok r
  | .removeOldNeigh now => .ok (r.removeOldNeigh now)

/-- The table as the constructor leaves it. -/
def NoNeighbors (r : AwdsRouting) : Prop := r.neighbors = [] ∧ r.hop2list = ∅

/-- The states that calls with the property `cond` reach. -/
inductive NeighRun (cond : AwdsRouting → NeighOp → Prop) : AwdsRouting → Prop
  | start {r : AwdsRouting} (empty : NoNeighbors r) : NeighRun cond r
  | call {r r' : AwdsRouting} {op : NeighOp} (run : NeighRun cond r) (ok : cond r op)
      (exec : op.exec r = .ok r') : NeighRun cond r'

/-- The table is ascending and not longer than the array. -/
structure TableOk (r : AwdsRouting) : Prop where
  ascending : Ascending NodeDescr.id r.neighbors
  length_le : r.neighbors.length ≤ maxNeighbors

section Runs

variable {cond : AwdsRouting → NeighOp → Prop} {r r' : AwdsRouting} {t now : AbsTime}
  {p : BasePacket}

/-- `removeOldNeigh` is a filter. -/
theorem removeOldNeigh_neighbors (r : AwdsRouting) (now : AbsTime) :
    (r.removeOldNeigh now).neighbors = r.neighbors.filter fun nd => !nd.isExpired now :=
  compact_eq_filter _ _

/-- The place that `findNeigh` returns for an address that is not in the table. -/
theorem insertPos_of_neg (hasc : Ascending NodeDescr.id r.neighbors) {id : NodeId}
    (hneg : r.findNeigh id < 0) :
    InsertPos NodeDescr.id r.neighbors id (-r.findNeigh id - 1).toNat := by
  rcases findNeigh_spec hasc id with ⟨i, nd, hi, -⟩ | ⟨q, hq, hpos⟩
  · omega
  · rw [hq, show (-(-(q : Int) - 1) - 1).toNat = q by omega]
    exact hpos

/-- `refreshNeigh` keeps the order and the bound. -/
theorem TableOk.refreshNeigh (h : TableOk r) {isNew : Bool}
    (hrun : r.refreshNeigh t p = .ok (r', isNew)) : TableOk r' := by
  obtain ⟨-, hcases⟩ := refreshNeigh_cases hrun
  rcases hcases with ⟨-, -, rfl, -⟩ | ⟨hneg, hroom, rfl, -⟩ | ⟨-, hroom, -, nd, last, hup⟩
  · exact h
  · obtain ⟨nd, hid, -, -, -, hns⟩ := addNeigh_neighbors r p t
      (-r.findNeigh (SrcPacket.getSrc p) - 1).toNat
    have hpos := insertPos_of_neg h.ascending hneg
    constructor
    · rw [hns]
      rw [← hid] at hpos
      exact h.ascending.insert (hid ▸ hpos)
    · rw [hns, List.length_append, List.length_cons, List.length_take, List.length_drop,
        Nat.min_eq_left hpos.le]
      have := hpos.le
      omega
  · obtain ⟨hop, -, rfl⟩ := hup.result
    constructor
    · rw [armLinkCheck_neighbors]
      exact h.ascending.set hup.entry (noteBeacon_spec nd last p t).1
    · rw [armLinkCheck_neighbors, List.length_set]
      exact h.length_le

/-- So does `removeOldNeigh`. -/
theorem TableOk.removeOldNeigh (h : TableOk r) (now : AbsTime) :
    TableOk (r.removeOldNeigh now) := by
  constructor
  · rw [removeOldNeigh_neighbors]
    exact h.ascending.filter _
  · rw [removeOldNeigh_neighbors]
    exact (List.length_filter_le _ _).trans h.length_le

/-- Every call keeps the order and the bound. -/
theorem TableOk.exec (h : TableOk r) {op : NeighOp} (hrun : op.exec r = .ok r') :
    TableOk r' := by
  cases op with
  | refreshNeigh t p =>
    obtain ⟨⟨r1, isNew⟩, hrefresh, hrun⟩ := bind_eq_ok.mp hrun
    cases hrun
    exact h.refreshNeigh hrefresh
  | removeOldNeigh now =>
    cases hrun
    exact h.removeOldNeigh now

/-- The order and the bound hold in every state of a run. -/
theorem NeighRun.tableOk (h : NeighRun cond r) : TableOk r := by
  induction h with
  | start empty =>
    constructor
    · rw [empty.1]
      exact List.Pairwise.nil
    · rw [empty.1]
      exact Nat.zero_le _
  | call _ _ hexec ih => exact ih.exec hexec

/-- The table in every state that calls of `refreshNeigh` and `removeOldNeigh` reach: it is
ascending and fits into the array, `findNeigh` ends and finds an address or its place, a new
neighbour is put between the others and `removeOldNeigh` is a filter. -/
theorem neighbors_ascending (h : NeighRun (fun _ _ => True) r) :
    Ascending NodeDescr.id r.neighbors ∧ r.neighbors.length ≤ maxNeighbors ∧
    (∀ id, FindNeighEnds r.neighbors id 0 r.neighbors.length (r.findNeigh id) ∧
      (∀ (i : Nat) nd, r.neighbors[i]? = some nd → nd.id = id → r.findNeigh id = i) ∧
      ((∀ nd ∈ r.neighbors, nd.id ≠ id) → ∃ q : Nat, q ≤ r.neighbors.length ∧
        r.findNeigh id = -q - 1 ∧ ∀ nd : NodeDescr, nd.id = id → ∀ i ≤ r.neighbors.length,
          Ascending NodeDescr.id (r.neighbors.take i ++ nd :: r.neighbors.drop i) ↔ i = q)) ∧
    (∀ t p r', r.refreshNeigh t p = .ok (r', true) →
      ∃ i nd, nd.id = SrcPacket.getSrc p ∧ nd.lastBeacon = some p ∧
        r'.neighbors = r.neighbors.take i ++ nd :: r.neighbors.drop i) ∧
    ∀ now, (r.removeOldNeigh now).neighbors
      = r.neighbors.filter fun nd => !nd.isExpired now := by
  have hok := h.tableOk
  refine ⟨hok.ascending, hok.length_le, fun id => ⟨findNeigh_ends r id, ?_, ?_⟩, ?_,
    removeOldNeigh_neighbors r⟩
  · -- A station of the table is found at its place.
    intro i nd hnd hid
    rcases findNeigh_spec hok.ascending id with ⟨j, nd', hj, hnd', hid'⟩ | ⟨q, -, hpos⟩
    · rw [hj, hok.ascending.index_unique hnd' hnd (hid'.trans hid.symm)]
    · exact absurd hid (InsertPos.not_mem hpos nd (List.mem_of_getElem? hnd))
  · -- For another one the search gives the one place that keeps the order.
    intro habsent
    rcases findNeigh_spec hok.ascending id with ⟨i, nd, -, hnd, hid⟩ | ⟨q, hq, hpos⟩
    · exact absurd hid (habsent nd (List.mem_of_getElem? hnd))
    · refine ⟨q, hpos.le, hq, fun nd hid i hi => ?_⟩
      rw [← hid] at hpos
      exact hpos.iff_ascending hok.ascending hi
  · -- Only a new station makes the table longer.
    intro t p r' hrun
    obtain ⟨-, hcases⟩ := refreshNeigh_cases hrun
    rcases hcases with ⟨-, -, -, hfalse⟩ | ⟨-, -, rfl, -⟩ | ⟨-, -, hfalse, -⟩
    · cases hfalse
    · obtain ⟨nd, hid, hlast, -, -, hns⟩ := addNeigh_neighbors r p t
        (-r.findNeigh (SrcPacket.getSrc p) - 1).toNat
      exact ⟨_, nd, hid, hlast, hns⟩
    · cases hfalse

/-- A list of calls that all return is a run. The condition on the calls has to hold in
every state. -/
theorem NeighRun.of_exec {cond : AwdsRouting → NeighOp → Prop} {ops : List NeighOp}
    (hcond : ∀ r, ∀ op ∈ ops, cond r op) (h : NeighRun cond r)
    (hops : ops.foldlM NeighOp.exec r = .ok r') : NeighRun cond r' := by
  induction ops generalizing r with
  | nil =>
    cases hops
    exact h
  | cons op ops ih =>
    rw [List.foldlM_cons] at hops
    obtain ⟨r1, hop, hops⟩ := bind_eq_ok.mp hops
    have hnext : NeighRun cond r1 := h.call (hcond r op List.mem_cons_self) hop
    exact ih (fun r op hmem => hcond r op (List.mem_cons_of_mem _ hmem)) hnext hops

/-- A beacon of the station `src` that lists the stations `ids`. -/
def beaconOf (src : NodeId) (seq period : Nat) (ids : List NodeId) : BasePacket :=
  let p := SrcPacket.setSeq (SrcPacket.setSrc (BasePacket.new.setType .beacon) src) seq
  let p := p.write Beacon.offsetPeriod (toBigEndian 2 period)
  let p := p.write Beacon.offsetNumMpr [UInt8.ofNat ids.length]
  { p.write Beacon.offsetLNeigh (ids.flatMap NodeId.toArray) with
    size := Beacon.offsetLNeigh + ids.length * NodeId.size }

/-- The first beacons of the stations 1 to 40. -/
def fortyStations (period : Nat) : List BasePacket :=
  (List.range 40).map fun i => beaconOf (Fin.ofNat _ (i + 1)) 1 period []

/-- Whether a call of `refreshNeigh` has returned without a new neighbour. -/
def noneAdded : Result (AwdsRouting × Bool) → Bool
  | .ok (_, isNew) => !isNew
  | .error _ => false

/-- How the test turns into the result. -/
theorem exists_of_noneAdded {out : Result (AwdsRouting × Bool)} (h : noneAdded out = true) :
    ∃ r', out = .ok (r', false) := by
  cases out with
  | error e => cases h
  | ok out =>
    obtain ⟨r', isNew⟩ := out
    cases isNew with
    | false => exact ⟨r', rfl⟩
    | true => cases h

/-- Two stations whose beacons come in the wrong order. -/
theorem neighbors_ascending_pair : ∃ r, NeighRun (fun _ _ => True) r ∧
    r.neighbors.map NodeDescr.id = [3, 7] ∧ Ascending NodeDescr.id r.neighbors := by
  have hstart : NeighRun (fun _ _ => True) (pairRouting false) := .start ⟨rfl, rfl⟩
  obtain ⟨r, hops, htest⟩ := exists_of_test
    ([.refreshNeigh 0 (beaconOf 7 1 1000 []), .refreshNeigh 1 (beaconOf 3 1 1000 [])].foldlM
      NeighOp.exec (pairRouting false))
    (fun r => r.neighbors.map NodeDescr.id = [3, 7]) (by decide +kernel)
  have hrun := hstart.of_exec (fun _ _ _ => trivial) hops
  exact ⟨r, hrun, of_decide_eq_true htest, (neighbors_ascending hrun).1⟩

end Runs

end Awds.Proofs
