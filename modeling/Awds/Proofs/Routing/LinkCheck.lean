import Awds.Proofs.Routing.Neighbors

/-!
# `Awds.Proofs.Routing.LinkCheck`: the link-failure job

`checkLinkFailure` is the only place that deactivates and removes neighbours. It is armed by
the first neighbour that becomes active, for the time its link runs out, and by itself for
the next link that does.

`LinkRun` is a run of beacons and calls of the job. Two things are logged beside the state of
the station, and no step reads them: the time of the last call of the job, and the beacons that
were entered into the table.

`linkCheck_pending` says that the job waits, while some neighbour is active, for a time that is
not behind the end of any link. This holds in every run in which no beacon sets the end of an
active link to a time in front of the one the job waits for. The period in a beacon is chosen by
its sender, and the job is not armed again if it waits already.
-/

set_option autoImplicit false

namespace Awds.Proofs

open Awds.Lib Awds.AwdsRouting

/-! ### Beacons -/

section Beacons

variable {r r' : AwdsRouting} {t : AbsTime} {nd : NodeDescr} {last p : BasePacket}

/-- The history of beacons makes a neighbour active with the beacon `p`. -/
def LastReceived (nd : NodeDescr) (last p : BasePacket) : Prop :=
  NodeDescr.histAfter nd.beaconHist (SrcPacket.getSeq last) (SrcPacket.getSeq p) > 0xFFF00000

/-- When a neighbour is active behind a beacon, and when it became so. -/
theorem noteBeacon_active (nd : NodeDescr) (last p : BasePacket) (t : AbsTime) :
    ((nd.noteBeacon last p t).1.active = true ↔ nd.active = true ∨ LastReceived nd last p) ∧
      ((nd.noteBeacon last p t).2 = true ↔ nd.active = false ∧ LastReceived nd last p) := by
  unfold NodeDescr.noteBeacon NodeDescr.updateActive LastReceived
  simp only
  split
  · rename_i h
    simp only [Bool.and_eq_true, Bool.not_eq_true', decide_eq_true_eq] at h
    simp [h.1, h.2]
  · rename_i h
    simp only [Bool.and_eq_true, Bool.not_eq_true', decide_eq_true_eq, not_and] at h
    cases hactive : nd.active with
    | false => simpa using h hactive
    | true => simp

/-- The first beacon of a neighbour does not make it active. -/
theorem not_lastReceived_init (id : NodeId) (p : BasePacket) (t : AbsTime) :
    ¬LastReceived (NodeDescr.init id p t) p p := by
  unfold LastReceived NodeDescr.histAfter NodeDescr.init
  simp only [UInt32.zero_shiftRight]
  decide

/-- The period of a beacon is not negative. -/
theorem getPeriod_nonneg (p : BasePacket) : 0 ≤ Beacon.getPeriod p := by
  exact Int.mul_nonneg (Int.natCast_nonneg _) (by decide)

/-- The entry of a new neighbour is not active and leaves the job alone. -/
theorem addNeigh_entry (r : AwdsRouting) (p : BasePacket) (t : AbsTime) (idx : Nat) :
    ∃ nd, nd.active = false ∧ nd.lastBeaconTime = t ∧ nd.beaconInterval = Beacon.getPeriod p ∧
      (r.addNeigh p t idx).neighbors = r.neighbors.take idx ++ nd :: r.neighbors.drop idx ∧
      (r.addNeigh p t idx).linkFailBlocker = r.linkFailBlocker := by
  obtain ⟨-, -, htime, hinterval, -⟩ :=
    noteBeacon_spec (NodeDescr.init (SrcPacket.getSrc p) p t) p p t
  obtain ⟨hactive, hbecame⟩ := noteBeacon_active (NodeDescr.init (SrcPacket.getSrc p) p t) p p t
  have hnot := not_lastReceived_init (SrcPacket.getSrc p) p t
  refine ⟨_, ?_, htime, hinterval, ?_, ?_⟩
  · rw [← Bool.not_eq_true, hactive]
    rintro (h | h)
    · cases h
    · exact hnot h
  · rw [addNeigh_eq _ _ _ _ (Prod.mk.eta).symm, armLinkCheck_neighbors]
  · rw [addNeigh_eq _ _ _ _ (Prod.mk.eta).symm, armLinkCheck,
      if_neg fun h => hnot (hbecame.mp h.1).2]

end Beacons

/-! ### The job -/

section Job

variable {r r' : AwdsRouting} {now : AbsTime} {nds nds' : List NodeDescr}
  {changed changed' : Bool} {m m' : Option AbsTime}

/-- The time `c` that the job waits for is not behind `v`. -/
def NotBehind (m : Option AbsTime) (v : AbsTime) : Prop := ∃ c, m = some c ∧ c ≤ v

/-- What one neighbour does to the smallest validity. -/
theorem minLinkValidity_spec {nd : NodeDescr} (h : minLinkValidity now nd m = .ok m') :
    (∀ v, NotBehind m v → NotBehind m' v) ∧
      (nd.active = true → NotBehind m' nd.linkValidity) := by
  unfold minLinkValidity at h
  split at h
  · split at h
    · cases h
    split at h
    · cases h
      refine ⟨?_, fun _ => ⟨_, rfl, le_rfl⟩⟩
      rintro v ⟨c, hc, -⟩
      cases hc
    · rename_i c
      cases h
      -- The new minimum is neither behind the old one nor behind the link.
      have hmin : (if nd.linkValidity < c then nd.linkValidity else c) ≤ c ∧
          (if nd.linkValidity < c then nd.linkValidity else c) ≤ nd.linkValidity := by
        split
        · exact ⟨le_of_lt ‹_›, le_rfl⟩
        · exact ⟨le_rfl, not_lt.mp ‹_›⟩
      constructor
      · rintro v ⟨c', hc', hle⟩
        cases hc'
        exact ⟨_, rfl, hmin.1.trans hle⟩
      · exact fun _ => ⟨_, rfl, hmin.2⟩
  · rename_i hactive
    cases h
    exact ⟨fun v hv => hv, fun h => absurd h hactive⟩

/-- The loop keeps the neighbours or deactivates them, and the smallest validity is not behind
the end of any active link. -/
theorem checkLinks_spec (h : checkLinks now nds changed m = .ok (nds', changed', m')) :
    (∀ v, NotBehind m v → NotBehind m' v) ∧
      ∀ nd ∈ nds', nd.active = true → NotBehind m' nd.linkValidity := by
  induction nds generalizing changed m nds' with
  | nil =>
    cases h
    exact ⟨fun v hv => hv, fun nd hnd => by cases hnd⟩
  | cons nd nds ih =>
    rw [checkLinks] at h
    obtain ⟨m1, hmin, h⟩ := bind_eq_ok.mp h
    obtain ⟨⟨nds1, changed1, m2⟩, hrest, h⟩ := bind_eq_ok.mp h
    cases h
    obtain ⟨hkeep, hentry⟩ := minLinkValidity_spec hmin
    obtain ⟨hkeep', hentries⟩ := ih hrest
    refine ⟨fun v hv => hkeep' v (hkeep v hv), fun x hx hactive => ?_⟩
    rcases List.mem_cons.mp hx with rfl | hx
    · exact hkeep' _ (hentry hactive)
    · exact hentries x hx hactive

/-- The job in front of `send_topo`: it waits for a time that is not behind the end of any
active link, and none of the neighbours is expired. -/
theorem checkNeighbors_spec (h : r.checkNeighbors now = .ok (r', changed)) :
    (∀ nd ∈ r'.neighbors, nd.active = true → NotBehind r'.linkFailBlocker nd.linkValidity) ∧
      ∀ nd ∈ r'.neighbors, nd.isExpired now = false := by
  obtain ⟨⟨nds, changed1, m⟩, hlinks, h⟩ := bind_eq_ok.mp h
  cases h
  obtain ⟨-, hentries⟩ := checkLinks_spec hlinks
  constructor
  · intro nd hnd hactive
    rw [removeOldNeigh_neighbors] at hnd
    exact hentries nd (List.mem_of_mem_filter hnd) hactive
  · intro nd hnd
    rw [removeOldNeigh_neighbors] at hnd
    simpa using (List.mem_filter.mp hnd).2

/-- `send_topo` keeps the table of neighbours. -/
theorem sendTopo_sameNeighbors {host : Host} {clock : Clock} {sent : Option BasePacket}
    (h : r.sendTopo host clock = .ok (r', sent)) : SameNeighbors r r' := by
  obtain ⟨⟨r1, p1⟩, hmake, h⟩ := bind_eq_ok.mp h
  refine SameNeighbors.trans ?_ (recvFlood_sameNeighbors h)
  obtain ⟨⟨r0, p0⟩, hunsigned, hmake⟩ := bind_eq_ok.mp hmake
  obtain ⟨p2, -, hunsigned⟩ := bind_eq_ok.mp hunsigned
  obtain ⟨period, -, hunsigned⟩ := bind_eq_ok.mp hunsigned
  cases hunsigned
  have hsign := Except.ok.inj hmake
  unfold signTopo at hsign
  simp only at hsign
  split at hsign <;> cases hsign <;> exact ⟨rfl, rfl, rfl⟩

/-- What the job leaves behind it. -/
theorem checkLinkFailure_spec {host : Host} {clock : Clock} {sent : Option BasePacket}
    (h : r.checkLinkFailure host clock = .ok (r', sent)) :
    (∀ nd ∈ r'.neighbors, nd.active = true → NotBehind r'.linkFailBlocker nd.linkValidity) ∧
      ∀ nd ∈ r'.neighbors, nd.isExpired clock.lastEventTime = false := by
  obtain ⟨⟨r1, changed⟩, hcheck, h⟩ := bind_eq_ok.mp h
  have hspec := checkNeighbors_spec hcheck
  simp only at h
  split at h
  · have hsame := sendTopo_sameNeighbors h
    rw [hsame.neighbors, hsame.linkFailBlocker]
    exact hspec
  · cases h
    exact hspec

end Job

/-! ### Runs -/

/-- A station with the time of its last event and that of the last call of the job. `entered` has
the beacons that were entered into the table and their times, the last one first. -/
structure LinkState where
  routing : AwdsRouting
  now : AbsTime
  lastCheck : Option AbsTime
  entered : List (AbsTime × BasePacket)

/-- The log behind a beacon. The beacon of an unknown station is left out if the table is full,
which is the test in `refreshNeigh`. -/
def LinkState.enteredWith (s : LinkState) (t : AbsTime) (p : BasePacket) :
    List (AbsTime × BasePacket) :=
  if s.routing.findNeigh (SrcPacket.getSrc p) < 0 ∧ s.routing.neighbors.length = maxNeighbors then
    s.entered
  else (t, p) :: s.entered

/-- The states that beacons and calls of the job reach. The job is called when it waits and
its time has come. `cond` is a property of a beacon and the state it comes in. -/
inductive LinkRun (cond : LinkState → AbsTime → BasePacket → Prop) : LinkState → Prop
  | start {r : AwdsRouting} (now : AbsTime) (empty : r.neighbors = [])
      (idle : r.linkFailBlocker = none) : LinkRun cond ⟨r, now, none, []⟩
  | beacon {s : LinkState} {t : AbsTime} {p : BasePacket} {r' : AwdsRouting} {isNew : Bool}
      (run : LinkRun cond s) (time : s.now ≤ t) (ok : cond s t p)
      (call : s.routing.refreshNeigh t p = .ok (r', isNew)) :
      LinkRun cond ⟨r', t, s.lastCheck, s.enteredWith t p⟩
  | check {s : LinkState} {host : Host} {clock : Clock} {c : AbsTime} {r' : AwdsRouting}
      {sent : Option BasePacket} (run : LinkRun cond s) (time : s.now ≤ clock.lastEventTime)
      (waits : s.routing.linkFailBlocker = some c) (due : c ≤ clock.lastEventTime)
      (call : s.routing.checkLinkFailure host clock = .ok (r', sent)) :
      LinkRun cond ⟨r', clock.lastEventTime, some clock.lastEventTime, s.entered⟩

/-- The beacons of a list, all at the time `t`, as long as the states pass a test. -/
def beaconsAt (t : AbsTime) (test : AwdsRouting → Bool) :
    LinkState → List BasePacket → Result LinkState
  | s, [] => .ok s
  | s, p :: ps =>
    if test s.routing then
      match s.routing.refreshNeigh t p with
      | .error e => .error e
      | .ok (r', _) => beaconsAt t test ⟨r', t, s.lastCheck, s.enteredWith t p⟩ ps
    else .error .assertion

/-- They continue a run. -/
theorem LinkRun.of_beacons {cond : LinkState → AbsTime → BasePacket → Prop}
    {test : AwdsRouting → Bool} {s s' : LinkState} {t : AbsTime} {ps : List BasePacket}
    (htest : ∀ s p, test s.routing = true → cond s t p) (h : LinkRun cond s)
    (htime : s.now ≤ t) (hps : beaconsAt t test s ps = .ok s') :
    LinkRun cond s' ∧ s'.now ≤ t := by
  induction ps generalizing s with
  | nil =>
    cases hps
    exact ⟨h, htime⟩
  | cons p ps ih =>
    rw [beaconsAt] at hps
    split at hps
    · rename_i hok
      split at hps
      · cases hps
      · rename_i r1 isNew hcall
        exact ih (h.beacon htime (htest s p hok) hcall) le_rfl hps
    · cases hps

/-- A station that has heard nothing yet, at the time 0. -/
def silentStation : LinkState := ⟨pairRouting false, 0, none, []⟩

theorem linkRun_silentStation (cond : LinkState → AbsTime → BasePacket → Prop) :
    LinkRun cond silentStation := .start 0 rfl rfl

/-! ### The job waits in time -/

section Pending

variable {s : LinkState} {r r' : AwdsRouting} {t : AbsTime} {p : BasePacket}

/-- A beacon sets the end of an active link to no time in front of the one the job waits
for. -/
def EndsLater (s : LinkState) (t : AbsTime) (p : BasePacket) : Prop :=
  ∀ nd ∈ s.routing.neighbors, nd.id = SrcPacket.getSrc p →
    (nd.active = true ∨ ∃ last, nd.lastBeacon = some last ∧ LastReceived nd last p) →
    ∀ c, s.routing.linkFailBlocker = some c →
      c ≤ t + Beacon.getPeriod p * NodeDescr.nrBeaconTriggerFail

/-- The job waits for a time that is not behind the end of any active link. -/
def WaitsInTime (r : AwdsRouting) : Prop :=
  ∀ nd ∈ r.neighbors, nd.active = true → NotBehind r.linkFailBlocker nd.linkValidity

/-- A beacon keeps the job in time if it does not shorten a link too much. -/
theorem WaitsInTime.refreshNeigh (h : WaitsInTime s.routing) (hlater : EndsLater s t p)
    {isNew : Bool} (hcall : s.routing.refreshNeigh t p = .ok (r', isNew)) :
    WaitsInTime r' := by
  obtain ⟨-, hcases⟩ := refreshNeigh_cases hcall
  rcases hcases with ⟨-, -, rfl, -⟩ | ⟨-, -, rfl, -⟩ | ⟨-, -, -, nd, last, hup⟩
  · exact h
  · obtain ⟨nd, hinactive, -, -, hns, hblocker⟩ := addNeigh_entry s.routing p t
      (-s.routing.findNeigh (SrcPacket.getSrc p) - 1).toNat
    intro x hx hactive
    rw [hblocker]
    rw [hns] at hx
    rcases mem_insertAt.mp hx with rfl | hold
    · rw [hinactive] at hactive
      cases hactive
    · exact h x hold hactive
  · obtain ⟨hop, -, rfl⟩ := hup.result
    obtain ⟨hactive', hbecame⟩ := noteBeacon_active nd last p t
    have hvalidity := (noteBeacon_spec nd last p t).2.2.2.2
    have hmem := List.mem_of_getElem? hup.entry
    -- The neighbour of the beacon, if it is active behind it.
    have hentry : (nd.noteBeacon last p t).1.active = true → ∀ c,
        s.routing.linkFailBlocker = some c → c ≤ (nd.noteBeacon last p t).1.linkValidity := by
      intro hact c hc
      rw [hvalidity]
      refine hlater nd hmem hup.src ?_ c hc
      exact (hactive'.mp hact).imp_right fun hlast => ⟨last, hup.beacon, hlast⟩
    intro x hx hact
    rw [armLinkCheck_neighbors] at hx
    have hx := List.mem_or_eq_of_mem_set hx
    unfold armLinkCheck
    split
    · rename_i harm
      -- The job did not wait, so no other neighbour is active.
      rcases hx with hx | rfl
      · obtain ⟨c, hc, -⟩ := h x hx hact
        rw [harm.2] at hc
        cases hc
      · exact ⟨_, rfl, le_rfl⟩
    · rename_i harm
      rcases hx with hx | rfl
      · exact h x hx hact
      · show NotBehind s.routing.linkFailBlocker _
        cases hblocker : s.routing.linkFailBlocker with
        | some c => exact ⟨c, rfl, hentry hact c hblocker⟩
        | none =>
          -- A neighbour that was active before has kept the job waiting.
          rcases hactive'.mp hact with hold | hnew
          · obtain ⟨c, hc, -⟩ := h nd hmem hold
            rw [hblocker] at hc
            cases hc
          · cases hold : nd.active with
            | false => exact absurd ⟨hbecame.mpr ⟨hold, hnew⟩, hblocker⟩ harm
            | true =>
              obtain ⟨c, hc, -⟩ := h nd hmem hold
              rw [hblocker] at hc
              cases hc

/-- The job waits in time in every state of the run. -/
theorem waitsInTime_run (h : LinkRun EndsLater s) : WaitsInTime s.routing := by
  induction h with
  | start now empty idle =>
    intro nd hnd
    rw [empty] at hnd
    cases hnd
  | beacon _ _ hlater hcall ih => exact ih.refreshNeigh hlater hcall
  | check _ _ _ _ hcall _ => exact (checkLinkFailure_spec hcall).1

/-- In every run in which no beacon sets the end of an active link to a time in front of the
one the job waits for: while some neighbour is active the job waits, and its time is not
behind the end of any active link. -/
theorem linkCheck_pending (h : LinkRun EndsLater s)
    (hactive : ∃ nd ∈ s.routing.neighbors, nd.active = true) :
    ∃ c, s.routing.linkFailBlocker = some c ∧
      ∀ nd ∈ s.routing.neighbors, nd.active = true → c ≤ nd.linkValidity := by
  have hwaits := waitsInTime_run h
  obtain ⟨nd, hnd, hact⟩ := hactive
  obtain ⟨c, hc, -⟩ := hwaits nd hnd hact
  refine ⟨c, hc, fun x hx hxact => ?_⟩
  obtain ⟨c', hc', hle⟩ := hwaits x hx hxact
  rw [hc] at hc'
  cases hc'
  exact hle

/-- Thirteen beacons of the station `src`. -/
def thirteenBeacons (src : NodeId) (period : Nat) : List BasePacket :=
  (List.range 13).map fun i => beaconOf src (i + 1) period []

/-- The station 3 becomes active. -/
theorem linkCheck_pending_single : ∃ s, LinkRun EndsLater s ∧
    (∃ nd ∈ s.routing.neighbors, nd.active = true) ∧
    ∃ c, s.routing.linkFailBlocker = some c := by
  have hstart := linkRun_silentStation EndsLater
  obtain ⟨s, hps, htest⟩ := exists_of_test
    (beaconsAt 0 (fun r => r.linkFailBlocker = none) silentStation (thirteenBeacons 3 1000))
    (fun s => s.routing.neighbors.any fun nd => nd.active) (by decide +kernel)
  obtain ⟨hrun, -⟩ := hstart.of_beacons (fun s p hidle nd _ _ _ c hc => by
    rw [of_decide_eq_true hidle] at hc
    cases hc) le_rfl hps
  have hactive := List.any_eq_true.mp htest
  obtain ⟨c, hc, -⟩ := linkCheck_pending hrun hactive
  exact ⟨_, hrun, hactive, c, hc⟩

/-- The station 3 with a long period becomes active first, and then the station 7 with a short
one: its link runs out before the job looks. -/
theorem short_period_unwatched : ¬∀ s, LinkRun (fun _ _ _ => True) s →
    (∃ nd ∈ s.routing.neighbors, nd.active = true) →
    ∃ c, s.routing.linkFailBlocker = some c ∧
      ∀ nd ∈ s.routing.neighbors, nd.active = true → c ≤ nd.linkValidity := by
  intro hclaim
  have hstart := linkRun_silentStation fun _ _ _ => True
  obtain ⟨s, hps, htest⟩ := exists_of_test
    (beaconsAt 0 (fun _ => true) silentStation
      (thirteenBeacons 3 10000 ++ thirteenBeacons 7 100))
    (fun s => s.routing.neighbors.any fun nd => nd.active &&
      s.routing.linkFailBlocker.any fun c => decide (nd.linkValidity < c)) (by decide +kernel)
  obtain ⟨hrun, -⟩ := hstart.of_beacons (fun _ _ _ => trivial) le_rfl hps
  obtain ⟨nd, hnd, hlate⟩ := List.any_eq_true.mp htest
  simp only [Bool.and_eq_true] at hlate
  obtain ⟨c, hc, hall⟩ := hclaim _ hrun ⟨nd, hnd, hlate.1⟩
  have hlt := hlate.2
  rw [hc, Option.any_some] at hlt
  exact absurd (hall nd hnd hlate.1) (not_le.mpr (of_decide_eq_true hlt))

end Pending

end Awds.Proofs
