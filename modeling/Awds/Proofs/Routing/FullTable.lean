import Awds.Proofs.Routing.LinkLoss

/-!
# `Awds.Proofs.Routing.FullTable`: stations that find the table full

`refreshNeigh` refuses the beacon of a station that is not in the table if the table has forty
entries. Entries that have expired are removed by the link-failure job only, and the job does not
run while no neighbour has been active. So old entries can keep a new neighbour out.

`CheckedSince` says on the beacons and the job calls of a run when they do not. Take each station
and the last beacon of it that was entered. If this beacon has expired, then the job was called
behind its expiry, or the station is an active neighbour still.

* `EnteredOk` is the invariant of the runs: each entry of the table has the times of the last
  beacon that was entered for its address, and an address without an entry was removed by a call
  of the job behind the expiry of its last beacon.
* `refused_unexpired_iff`: a beacon that is refused finds forty entries, and none of them is
  expired exactly if `CheckedSince` holds.
* `silent_keep_out`: forty stations that have sent one beacon each.
-/

set_option autoImplicit false

namespace Awds.Proofs

open Awds.Lib Awds.AwdsRouting

/-! ### The log of beacons -/

section Log

variable {s : LinkState} {t u : AbsTime} {p b : BasePacket} {id : NodeId}

/-- The time at which a neighbour expires behind the beacon `p` at the time `t`, if it is not
active then. -/
def expiryOf (t : AbsTime) (p : BasePacket) : AbsTime := t + Beacon.getPeriod p * 32

/-- The time at which an entry of the table expires if it is not active. -/
def expiry (nd : NodeDescr) : AbsTime := nd.lastBeaconTime + nd.beaconInterval * 32

/-- The last beacon of the station `id` in a log. -/
def lastBeaconOf (log : List (AbsTime × BasePacket)) (id : NodeId) :
    Option (AbsTime × BasePacket) :=
  log.find? fun x => decide (SrcPacket.getSrc x.2 = id)

/-- The last beacon of the station that was just heard. -/
theorem lastBeaconOf_cons_self (log : List (AbsTime × BasePacket)) :
    lastBeaconOf ((t, p) :: log) (SrcPacket.getSrc p) = some (t, p) :=
  List.find?_cons_of_pos (by simp)

/-- A beacon of another station changes nothing. -/
theorem lastBeaconOf_cons_of_ne (log : List (AbsTime × BasePacket)) (h : id ≠ SrcPacket.getSrc p) :
    lastBeaconOf ((t, p) :: log) id = lastBeaconOf log id :=
  List.find?_cons_of_neg (by simpa using h.symm)

/-- For each station whose last beacon that was entered has expired at the time `t`: the job was
called behind the expiry, or the station is an active neighbour. -/
def CheckedSince (s : LinkState) (t : AbsTime) : Prop :=
  ∀ id u b, lastBeaconOf s.entered id = some (u, b) → expiryOf u b < t →
    (∃ c, s.lastCheck = some c ∧ expiryOf u b < c) ∨
      ∃ nd ∈ s.routing.neighbors, nd.id = id ∧ nd.active = true

end Log

/-! ### Beacons -/

section Beacons

variable {r r' : AwdsRouting} {t : AbsTime} {p : BasePacket} {nd nd' : NodeDescr} {i : Nat}
  {isNew : Bool}

/-- The table with the entry `nd'` for a beacon. The other entries are those of before. -/
structure Enters (r r' : AwdsRouting) (t : AbsTime) (p : BasePacket) (nd' : NodeDescr) : Prop where
  mem : nd' ∈ r'.neighbors
  src : nd'.id = SrcPacket.getSrc p
  time : nd'.lastBeaconTime = t
  interval : nd'.beaconInterval = Beacon.getPeriod p
  others : ∀ x ∈ r'.neighbors, x = nd' ∨ x ∈ r.neighbors ∧ x.id ≠ SrcPacket.getSrc p
  stay : ∀ x ∈ r.neighbors, x.id ≠ SrcPacket.getSrc p → x ∈ r'.neighbors

/-- The first beacon of a station: its entry goes in at the index `i`. -/
theorem enters_new (habsent : ∀ x ∈ r.neighbors, x.id ≠ SrcPacket.getSrc p)
    (hns : r'.neighbors = r.neighbors.take i ++ nd' :: r.neighbors.drop i)
    (hid : nd'.id = SrcPacket.getSrc p) (htime : nd'.lastBeaconTime = t)
    (hinterval : nd'.beaconInterval = Beacon.getPeriod p) : Enters r r' t p nd' where
  mem := by
    rw [hns]
    exact mem_insertAt.mpr (.inl rfl)
  src := hid
  time := htime
  interval := hinterval
  others := by
    intro x hx
    rw [hns] at hx
    rcases mem_insertAt.mp hx with rfl | hold
    · exact .inl rfl
    · exact .inr ⟨hold, habsent x hold⟩
  -- The old entries are all kept: nothing is overwritten.
  stay := by
    intro x hx _
    rw [hns]
    exact mem_insertAt.mpr (.inr hx)

/-- A beacon of a neighbour, which replaces the entry at its index. -/
theorem enters_known (hasc : Ascending NodeDescr.id r.neighbors) (hnd : r.neighbors[i]? = some nd)
    (hsrc : nd.id = SrcPacket.getSrc p) (hns : r'.neighbors = r.neighbors.set i nd')
    (hid : nd'.id = SrcPacket.getSrc p) (htime : nd'.lastBeaconTime = t)
    (hinterval : nd'.beaconInterval = Beacon.getPeriod p) : Enters r r' t p nd' where
  mem := by
    rw [hns]
    exact (hasc.mem_set_iff hnd).mpr (.inl rfl)
  src := hid
  time := htime
  interval := hinterval
  -- Only the entry at `i` was written.
  others := by
    intro x hx
    rw [hns] at hx
    rw [← hsrc]
    exact (hasc.mem_set_iff hnd).mp hx
  -- The entry at `i` is the one of the sender, so all others stay.
  stay := by
    intro x hx hne
    rw [← hsrc] at hne
    rw [hns]
    exact (hasc.mem_set_iff hnd).mpr (.inr ⟨hx, hne⟩)

/-- A call of `refreshNeigh` that returns has refused the beacon of an unknown station, since the
table is full, or it has entered the beacon. -/
theorem refreshNeigh_enters (hasc : Ascending NodeDescr.id r.neighbors)
    (h : r.refreshNeigh t p = .ok (r', isNew)) :
    (r.findNeigh (SrcPacket.getSrc p) < 0 ∧ r.neighbors.length = maxNeighbors ∧ r' = r ∧
        isNew = false) ∨
      (¬(r.findNeigh (SrcPacket.getSrc p) < 0 ∧ r.neighbors.length = maxNeighbors) ∧
        ∃ nd', Enters r r' t p nd') := by
  obtain ⟨-, hcases⟩ := refreshNeigh_cases h
  rcases hcases with hrefused | ⟨hneg, hroom, rfl, -⟩ | ⟨-, hroom, -, nd, last, hup⟩
  · exact .inl hrefused
  · obtain ⟨nd', hid, -, htime, hinterval, hns⟩ := addNeigh_neighbors r p t
      (-r.findNeigh (SrcPacket.getSrc p) - 1).toNat
    have habsent := (findNeigh_neg_iff hasc _).mp hneg
    exact .inr ⟨fun hfull => absurd hfull.2 hroom.ne, nd',
      enters_new habsent hns hid htime hinterval⟩
  · obtain ⟨hop, -, hr'⟩ := hup.result
    obtain ⟨hid, -, htime, hinterval, -⟩ := noteBeacon_spec nd last p t
    have hns : r'.neighbors = r.neighbors.set (r.findNeigh (SrcPacket.getSrc p)).toNat
        (nd.noteBeacon last p t).1 := by
      rw [hr', armLinkCheck_neighbors]
    exact .inr ⟨fun hfull => absurd hfull.2 hroom.ne, _,
      enters_known hasc hup.entry hup.src hns (hid.trans hup.src) htime hinterval⟩

end Beacons

/-! ### The invariant -/

section Invariant

variable {cond : LinkState → AbsTime → BasePacket → Prop} {s : LinkState} {r' : AwdsRouting}
  {t c : AbsTime} {p : BasePacket} {nd nd' : NodeDescr} {isNew : Bool} {id : NodeId}

/-- No entry has expired at the time `c`. -/
def UnexpiredAt (r : AwdsRouting) (c : AbsTime) : Prop :=
  ∀ nd ∈ r.neighbors, nd.active = false → c ≤ expiry nd

/-- What holds in every state of a run of beacons and job calls. -/
structure EnteredOk (s : LinkState) : Prop where
  table : TableOk s.routing
  stored : ∀ nd ∈ s.routing.neighbors, ∃ b,
    lastBeaconOf s.entered nd.id = some (nd.lastBeaconTime, b) ∧
    nd.beaconInterval = Beacon.getPeriod b
  removed : ∀ id u b, lastBeaconOf s.entered id = some (u, b) →
    (∀ nd ∈ s.routing.neighbors, nd.id ≠ id) → ∃ c, s.lastCheck = some c ∧ expiryOf u b < c
  unexpired : ∀ c, s.lastCheck = some c → c ≤ s.now ∧ UnexpiredAt s.routing c

/-- An entry expires at the time that its last beacon says. -/
theorem expiry_of_stored {b : BasePacket} (h : nd.beaconInterval = Beacon.getPeriod b) :
    expiry nd = expiryOf nd.lastBeaconTime b := by
  unfold expiry expiryOf
  rw [h]

/-- A station whose beacon was entered has an entry that expires with it, or the job has removed
the entry behind that time. -/
theorem EnteredOk.removed_or_entry {u : AbsTime} {b : BasePacket} (h : EnteredOk s)
    (hlast : lastBeaconOf s.entered id = some (u, b)) :
    (∃ c, s.lastCheck = some c ∧ expiryOf u b < c) ∨
      ∃ nd ∈ s.routing.neighbors, nd.id = id ∧ expiry nd = expiryOf u b := by
  by_cases habsent : ∀ nd ∈ s.routing.neighbors, nd.id ≠ id
  · exact .inl (h.removed id u b hlast habsent)
  · push Not at habsent
    obtain ⟨nd, hnd, rfl⟩ := habsent
    obtain ⟨b', hlast', hinterval⟩ := h.stored nd hnd
    rw [hlast] at hlast'
    cases hlast'
    exact .inr ⟨nd, hnd, rfl, expiry_of_stored hinterval⟩

/-- A beacon does not expire before it comes. -/
theorem le_expiryOf (hc : c ≤ t) : c ≤ expiryOf t p := by
  have hlong : 0 ≤ Beacon.getPeriod p * 32 :=
    Int.mul_nonneg (getPeriod_nonneg p) (by decide)
  exact hc.trans (le_add_of_nonneg_right hlong)

/-- A beacon that is refused leaves the log as it is. -/
theorem EnteredOk.refused (h : EnteredOk s) (htime : s.now ≤ t)
    (hfull : s.routing.findNeigh (SrcPacket.getSrc p) < 0 ∧
      s.routing.neighbors.length = maxNeighbors) :
    EnteredOk ⟨s.routing, t, s.lastCheck, s.enteredWith t p⟩ := by
  have hlog : s.enteredWith t p = s.entered := if_pos hfull
  rw [hlog]
  refine ⟨h.table, h.stored, h.removed, fun c hc => ?_⟩
  obtain ⟨hle, hun⟩ := h.unexpired c hc
  exact ⟨hle.trans htime, hun⟩

/-- A beacon that is entered. -/
theorem EnteredOk.entered (h : EnteredOk s) (htime : s.now ≤ t) (htable : TableOk r')
    (hroom : ¬(s.routing.findNeigh (SrcPacket.getSrc p) < 0 ∧
      s.routing.neighbors.length = maxNeighbors))
    (hnd : Enters s.routing r' t p nd') :
    EnteredOk ⟨r', t, s.lastCheck, s.enteredWith t p⟩ := by
  have hlog : s.enteredWith t p = (t, p) :: s.entered := if_neg hroom
  rw [hlog]
  refine ⟨htable, fun x hx => ?_, fun id u b hlast habsent => ?_, fun c hc => ?_⟩
  · -- the entry of the beacon, or one of another station
    rcases hnd.others x hx with rfl | ⟨hold, hne⟩
    · show ∃ b, lastBeaconOf ((t, p) :: s.entered) x.id = some (x.lastBeaconTime, b) ∧ _
      rw [hnd.src, hnd.time, lastBeaconOf_cons_self]
      exact ⟨p, rfl, hnd.interval⟩
    · show ∃ b, lastBeaconOf ((t, p) :: s.entered) x.id = some (x.lastBeaconTime, b) ∧ _
      rw [lastBeaconOf_cons_of_ne s.entered hne]
      exact h.stored x hold
  · -- a station without an entry is not the one of the beacon
    have hne : id ≠ SrcPacket.getSrc p := fun hid => habsent nd' hnd.mem (hnd.src.trans hid.symm)
    have hlast : lastBeaconOf ((t, p) :: s.entered) id = some (u, b) := hlast
    rw [lastBeaconOf_cons_of_ne s.entered hne] at hlast
    refine h.removed id u b hlast fun x hx hid => ?_
    exact habsent x (hnd.stay x hx (hid.trans_ne hne)) hid
  · -- The last check is not later than this beacon.
    obtain ⟨hle, hun⟩ := h.unexpired c hc
    refine ⟨hle.trans htime, fun x hx hinactive => ?_⟩
    rcases hnd.others x hx with rfl | ⟨hold, -⟩
    · rw [expiry_of_stored hnd.interval, hnd.time]
      exact le_expiryOf (hle.trans htime)
    · exact hun x hold hinactive

/-- Whatever a beacon does keeps the invariant. -/
theorem EnteredOk.beacon (h : EnteredOk s) (htime : s.now ≤ t)
    (hcall : s.routing.refreshNeigh t p = .ok (r', isNew)) :
    EnteredOk ⟨r', t, s.lastCheck, s.enteredWith t p⟩ := by
  rcases refreshNeigh_enters h.table.ascending hcall with ⟨hneg, hfull, rfl, -⟩ |
    ⟨hroom, nd', hnd⟩
  · exact h.refused htime ⟨hneg, hfull⟩
  · exact h.entered htime (h.table.refreshNeigh hcall) hroom hnd

/-- What the job deactivates keeps the time of its last beacon and the period. -/
theorem deactivated_times (now : AbsTime) (nd : NodeDescr) :
    (deactivated now nd).lastBeaconTime = nd.lastBeaconTime ∧
      (deactivated now nd).beaconInterval = nd.beaconInterval := by
  simp only [deactivated, NodeDescr.updateInactive]
  split <;> exact ⟨rfl, rfl⟩

/-- The job does not change when an entry expires. -/
theorem expiry_deactivated (now : AbsTime) (nd : NodeDescr) :
    expiry (deactivated now nd) = expiry nd := by
  unfold expiry
  rw [(deactivated_times now nd).1, (deactivated_times now nd).2]

/-- An entry that is expired is behind its expiry. -/
theorem expiry_lt_of_isExpired {now : AbsTime} (h : nd.isExpired now = true) :
    nd.active = false ∧ expiry nd < now := by
  unfold NodeDescr.isExpired at h
  rw [Bool.and_eq_true, Bool.not_eq_true', decide_eq_true_eq] at h
  exact h

/-- An entry that is neither active nor expired is in front of its expiry. -/
theorem le_expiry_of_not_isExpired {now : AbsTime} (h : nd.isExpired now = false)
    (hinactive : nd.active = false) : now ≤ expiry nd := by
  unfold NodeDescr.isExpired at h
  rw [hinactive, Bool.not_false, Bool.true_and] at h
  exact not_lt.mp (of_decide_eq_false h)

/-- A call of the job keeps the invariant: the entries that are left have their times, and the
ones that are dropped have expired. -/
theorem EnteredOk.check {host : Host} {clock : Clock} {sent : Option BasePacket} (h : EnteredOk s)
    (htime : s.now ≤ clock.lastEventTime)
    (hcall : s.routing.checkLinkFailure host clock = .ok (r', sent)) :
    EnteredOk ⟨r', clock.lastEventTime, some clock.lastEventTime, s.entered⟩ := by
  have hns := checkLinkFailure_neighbors hcall
  refine ⟨h.table.checkLinkFailure hcall, fun x hx => ?_, fun id u b hlast habsent => ?_,
    fun c hc => ?_⟩
  · have hx : x ∈ r'.neighbors := hx
    rw [hns] at hx
    obtain ⟨nd, hnd, rfl⟩ := List.mem_map.mp (List.mem_of_mem_filter hx)
    rw [(deactivated_keeps _ nd).1, (deactivated_times _ nd).1, (deactivated_times _ nd).2]
    exact h.stored nd hnd
  · rcases h.removed_or_entry hlast with ⟨c, hc, hbefore⟩ | ⟨nd, hnd, rfl, hexpiry⟩
    · -- it was removed before this call
      exact ⟨_, rfl, hbefore.trans_le ((h.unexpired c hc).1.trans htime)⟩
    · -- this call has dropped it, so it has expired
      have hdropped :
          (deactivated clock.lastEventTime nd).isExpired clock.lastEventTime = true := by
        by_contra hkept
        refine habsent (deactivated clock.lastEventTime nd) ?_ (deactivated_keeps _ nd).1
        show _ ∈ r'.neighbors
        rw [hns]
        exact List.mem_filter.mpr ⟨List.mem_map_of_mem hnd, by simpa using hkept⟩
      have hlate := (expiry_lt_of_isExpired hdropped).2
      rw [expiry_deactivated, hexpiry] at hlate
      exact ⟨_, rfl, hlate⟩
  · cases hc
    refine ⟨le_rfl, fun x hx hinactive => ?_⟩
    exact le_expiry_of_not_isExpired ((checkLinkFailure_spec hcall).2 x hx) hinactive

/-- The invariant holds in every state of every run. -/
theorem enteredOk_run (h : LinkRun cond s) : EnteredOk s := by
  induction h with
  | start now empty idle =>
    refine ⟨⟨?_, ?_⟩, fun nd hnd => ?_, fun id u b hlast => ?_, fun c hc => ?_⟩
    · rw [empty]
      exact List.Pairwise.nil
    · rw [empty]
      exact Nat.zero_le _
    · have hnd : nd ∈ _ := hnd
      rw [empty] at hnd
      cases hnd
    · cases hlast
    · cases hc
  | beacon _ htime _ hcall ih => exact ih.beacon htime hcall
  | check _ htime _ _ hcall ih => exact ih.check htime hcall

/-- No entry is expired exactly if the job was called in time. -/
theorem EnteredOk.unexpired_iff (h : EnteredOk s) (t : AbsTime) :
    (∀ nd ∈ s.routing.neighbors, nd.isExpired t = false) ↔ CheckedSince s t := by
  constructor
  · intro hun id u b hlast hlate
    rcases h.removed_or_entry hlast with hremoved | ⟨nd, hnd, hid, hexpiry⟩
    · exact .inl hremoved
    · -- the entry is still there, and it would be expired if it were not active
      refine .inr ⟨nd, hnd, hid, ?_⟩
      cases hactive : nd.active with
      | true => rfl
      | false =>
        have hle := le_expiry_of_not_isExpired (hun nd hnd) hactive
        rw [hexpiry] at hle
        exact absurd hlate (not_lt.mpr hle)
  · intro hchecked nd hnd
    rw [← Bool.not_eq_true]
    intro hexpired
    obtain ⟨hinactive, hlate⟩ := expiry_lt_of_isExpired hexpired
    obtain ⟨b, hlast, hinterval⟩ := h.stored nd hnd
    rw [expiry_of_stored hinterval] at hlate
    rcases hchecked nd.id _ b hlast hlate with ⟨c, hc, hbefore⟩ | ⟨nd', hnd', hid, hactive⟩
    · -- the call of the job would have removed it
      have hle := (h.unexpired c hc).2 nd hnd hinactive
      rw [expiry_of_stored hinterval] at hle
      exact absurd hbefore (not_lt.mpr hle)
    · -- an address has one entry only
      have hsame : nd' = nd := h.table.ascending.eq_of_key_eq hnd' hnd hid
      rw [hsame, hinactive] at hactive
      cases hactive

/-- In every run of beacons and job calls: a beacon of a station that is not in the table is
refused only if there are forty neighbours. None of them is expired if and only if for each
station whose last beacon that was entered has expired the job was called behind the expiry or the
station is an active neighbour. -/
theorem refused_unexpired_iff (h : LinkRun cond s)
    (hunknown : ∀ nd ∈ s.routing.neighbors, nd.id ≠ SrcPacket.getSrc p)
    (hrefused : s.routing.refreshNeigh t p = .ok (r', false)) :
    s.routing.neighbors.length = maxNeighbors ∧
      ((∀ nd ∈ s.routing.neighbors, nd.isExpired t = false) ↔ CheckedSince s t) := by
  refine ⟨?_, (enteredOk_run h).unexpired_iff t⟩
  obtain ⟨-, hcases⟩ := refreshNeigh_cases hrefused
  rcases hcases with ⟨-, hfull, -⟩ | ⟨-, -, -, hnew⟩ | ⟨-, -, -, nd, last, hup⟩
  · exact hfull
  · cases hnew
  · exact absurd hup.src (hunknown nd (List.mem_of_getElem? hup.entry))

end Invariant

/-! ### Forty stations -/

section Forty

/-- The station 50 becomes active, and the station 51 sends one beacon with a period of a
millisecond. -/
def firstBeacons : List BasePacket := thirteenBeacons 50 1000 ++ [beaconOf 51 1 1 []]

/-- The link of the station 50 runs out behind eight seconds. The job is called then and removes
the station 51, whose beacon has expired, and 39 other stations come. The beacon of one more
station is refused, and no entry is expired. -/
theorem refused_unexpired_forty : ∃ s r', LinkRun (fun _ _ _ => True) s ∧
    s.lastCheck = some 8000000000 ∧
    (∃ b, lastBeaconOf s.entered 51 = some (0, b) ∧ expiryOf 0 b < 9000000000) ∧
    s.routing.refreshNeigh 9000000000 (beaconOf 41 1 1000 []) = .ok (r', false) ∧
    CheckedSince s 9000000000 ∧
    ∀ nd ∈ s.routing.neighbors, nd.isExpired 9000000000 = false := by
  have hstart := linkRun_silentStation fun _ _ _ => True
  obtain ⟨s₁, hfirst, htest⟩ := exists_of_test
    (beaconsAt 0 (fun _ => true) silentStation firstBeacons)
    (fun s => decide (s.routing.linkFailBlocker = some 8000000000) &&
      returnsWith (s.routing.checkLinkFailure (pairHosts false) ⟨8000000000, 0⟩) fun x =>
        returnsWith (beaconsAt 8000000000 (fun _ => true)
            ⟨x.1, 8000000000, some 8000000000, s.entered⟩ ((fortyStations 1000).take 39)) fun s =>
          decide (s.lastCheck = some 8000000000) &&
          (lastBeaconOf s.entered 51).any (fun y : AbsTime × BasePacket =>
            decide (y.1 = 0) && decide (expiryOf 0 y.2 < 9000000000)) &&
          s.routing.neighbors.all (fun nd => !nd.isExpired 9000000000 &&
            decide (nd.id ≠ SrcPacket.getSrc (beaconOf 41 1 1000 []))) &&
          noneAdded (s.routing.refreshNeigh 9000000000 (beaconOf 41 1 1000 [])))
    (by decide +kernel)
  obtain ⟨hrun₁, htime₁⟩ := hstart.of_beacons (fun _ _ _ => trivial) le_rfl hfirst
  rw [Bool.and_eq_true, decide_eq_true_eq] at htest
  obtain ⟨hwaits, htest⟩ := htest
  obtain ⟨⟨r₂, sent⟩, hcheck, htest⟩ := exists_of_returnsWith htest
  have hrun₂ := hrun₁.check (htime₁.trans (by decide)) hwaits le_rfl hcheck
  obtain ⟨s, hothers, htest⟩ := exists_of_returnsWith htest
  obtain ⟨hrun, -⟩ := hrun₂.of_beacons (fun _ _ _ => trivial) le_rfl hothers
  simp only [Bool.and_eq_true, decide_eq_true_eq, List.all_eq_true, Bool.not_eq_true'] at htest
  obtain ⟨⟨⟨hlast, hold⟩, hall⟩, hrefused⟩ := htest
  obtain ⟨⟨u, b⟩, hentered, hlate⟩ := Option.any_eq_true _ _ |>.mp hold
  simp only [Bool.and_eq_true, decide_eq_true_eq] at hlate
  obtain ⟨rfl, hlate⟩ := hlate
  obtain ⟨r', hcall⟩ := exists_of_noneAdded hrefused
  obtain ⟨-, hiff⟩ := refused_unexpired_iff hrun (fun nd hnd => (hall nd hnd).2) hcall
  have hun : ∀ nd ∈ s.routing.neighbors, nd.isExpired 9000000000 = false :=
    fun nd hnd => (hall nd hnd).1
  exact ⟨s, r', hrun, hlast, ⟨b, hentered, hlate⟩, hcall, hiff.mp hun, hun⟩

/-- Forty stations that have been silent for a thousand seconds keep a new one out. -/
theorem silent_keep_out : ¬∀ s t p r', LinkRun (fun _ _ _ => True) s → s.now ≤ t →
    (∀ nd ∈ s.routing.neighbors, nd.id ≠ SrcPacket.getSrc p) →
    s.routing.refreshNeigh t p = .ok (r', false) →
    s.routing.neighbors.length = maxNeighbors ∧
      ∀ nd ∈ s.routing.neighbors, nd.isExpired t = false := by
  intro hclaim
  have hstart := linkRun_silentStation fun _ _ _ => True
  obtain ⟨s, hps, htest⟩ := exists_of_test
    (beaconsAt 0 (fun _ => true) silentStation (fortyStations 1000))
    (fun s => s.routing.neighbors.all
        (fun nd => nd.id ≠ SrcPacket.getSrc (beaconOf 41 1 1000 [])) &&
      s.routing.neighbors.any (fun nd => nd.isExpired 1000000000000) &&
      noneAdded (s.routing.refreshNeigh 1000000000000 (beaconOf 41 1 1000 [])))
    (by decide +kernel)
  simp only [Bool.and_eq_true, List.all_eq_true, List.any_eq_true, decide_eq_true_eq] at htest
  obtain ⟨⟨hunknown, nd, hnd, hexpired⟩, hlast⟩ := htest
  obtain ⟨hrun, htime⟩ := hstart.of_beacons (fun _ _ _ => trivial) le_rfl hps
  obtain ⟨r', hcall⟩ := exists_of_noneAdded hlast
  have hlater : s.now ≤ 1000000000000 := htime.trans (by decide)
  have hun := (hclaim _ _ _ r' hrun hlater hunknown hcall).2 nd hnd
  rw [hexpired] at hun
  cases hun

end Forty

end Awds.Proofs
