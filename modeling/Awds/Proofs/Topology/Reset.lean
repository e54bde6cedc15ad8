import Awds.Routing.Operations
import Awds.Proofs.Topology.CleanupTime
import Awds.Proofs.Topology.WeightRange

/-!
# `Awds.Proofs.Topology.Reset`: what a reset command leaves behind

`topolock_recv` runs `RTopology::reset` and takes the lock away behind it. `reset` sets the
validities of all other nodes to `AbsTime::now()` and calls `removeOldNodes`, which compares them
with `GEA.lastEventTime` and does nothing while the topology is locked. The links of the own node
stay as they are.

`reset_works_iff` says when the own node is the only one that is left, without a link to another
one. What is left is read from the outlines of the entries, so it is about every state.
-/

set_option autoImplicit false

namespace Awds.Proofs

open Std (ExtTreeMap)
open Awds.Lib Awds.AdjList Awds.RTopology

/-- The own node has no link to another node. -/
def SelfLinked (st : Station) (adj : AdjList) : Prop :=
  ∀ l ∈ adj.linksOf st.myNodeId, l.neighbor = st.myNodeId

/-- What a reset is for: the topology is unlocked and holds the own node only, no link goes to a
node that is gone, and no route is reported at any time. -/
structure WasReset (st : Station) (s : RTopology) : Prop where
  unlocked : s.locked = false
  nodes : ∀ v : NodeId, v ∈ s.adjList ↔ v = st.myNodeId
  links : ∀ u : NodeId, ∀ l ∈ s.adjList.linksOf u, l.neighbor ∈ s.adjList
  routes : ∀ now dest s' hop found, s.getNextHop st now dest = .ok (s', hop, found) →
    found = false

/-- When a reset does what it is for. A locked topology keeps its nodes, so there must be none to
remove. Otherwise the own node must be alive, the other nodes expire if the two clocks agree, and
the own links go only if they have expired. -/
def ResetWorks (st : Station) (now wallClock : AbsTime) (s : RTopology) : Prop :=
  ∃ own, s.adjList[st.myNodeId]? = some own ∧
    (s.locked = true → (∀ v ∈ s.adjList, v = st.myNodeId) ∧ SelfLinked st s.adjList) ∧
    (s.locked = false → now < own.nodeValidity ∧
      (wallClock = now ∨ ∀ v ∈ s.adjList, v = st.myNodeId) ∧
      (own.edgeValidity ≤ now ∨ SelfLinked st s.adjList))

/-! ### Reading outlines -/

section
variable {adj adj' : AdjList} {u : NodeId}

/-- The neighbours and the qualities of the links of a node. -/
theorem linksOf_outline (adj : AdjList) (u : NodeId) :
    (adj.linksOf u).map shape = ((adj[u]?.map outline).map Outline.links).getD [] := by
  unfold linksOf
  cases adj[u]? <;> rfl

/-- The neighbours of the links come from an outline. -/
theorem exists_link_of_shape {ls ls' : List LinkQuality} (h : ls'.map shape = ls.map shape)
    {l : LinkQuality} (hl : l ∈ ls') : ∃ r ∈ ls, r.neighbor = l.neighbor := by
  obtain ⟨r, hr, hrl⟩ := List.mem_map.mp (h ▸ List.mem_map_of_mem (f := shape) hl)
  exact ⟨r, hr, congrArg Prod.fst hrl⟩

end

section
variable {st : Station} {now : AbsTime} {s s' : RTopology} {next : AbsTime}

/-- The map behind `removeOldNodes`, in an unlocked state. -/
theorem removeOldNodes_outline (hlocked : s.locked = false)
    (h : s.removeOldNodes now = .ok (s', next)) (u : NodeId) :
    s'.adjList[u]?.map outline = (s.adjList[u]?.map outline).bind (passedOutline now) := by
  obtain ⟨w, inv, hadj, -⟩ := removeOldNodes_passInv hlocked h
  rw [hadj, inv.entry]
  split
  · rfl
  · rename_i hu
    have hnone := (not_mem_iff_getElem? _ _).mp (fun h => hu (ExtTreeMap.mem_keys.mpr h))
    simp [hnone]

/-- The pass gives the own node no new link. -/
theorem SelfLinked.removeOldNodes (hself : SelfLinked st s.adjList) (hlocked : s.locked = false)
    (h : s.removeOldNodes now = .ok (s', next)) : SelfLinked st s'.adjList := by
  intro l hl
  have hout := removeOldNodes_outline hlocked h st.myNodeId
  have hlinks := linksOf_outline s'.adjList st.myNodeId
  rw [hout] at hlinks
  have hbefore := linksOf_outline s.adjList st.myNodeId
  cases ho : s.adjList[st.myNodeId]?.map outline with
  | none =>
    rw [ho] at hlinks
    rw [List.map_eq_nil_iff.mp hlinks] at hl
    cases hl
  | some o =>
    simp only [ho, Option.bind_some, passedOutline] at hlinks hbefore
    split at hlinks
    · rw [List.map_eq_nil_iff.mp hlinks] at hl
      cases hl
    · split at hlinks
      · rw [List.map_eq_nil_iff.mp hlinks] at hl
        cases hl
      · obtain ⟨r, hr, hrl⟩ := exists_link_of_shape (hlinks.trans hbefore.symm) hl
        exact hrl ▸ hself r hr

/-- Without a link of the own node to another one no route is reported. -/
theorem SelfLinked.no_route (hself : SelfLinked st s.adjList) (hlocked : s.locked = false)
    (hdirty : s.dirty = true) {dest hop : NodeId} {found : Bool}
    (h : s.getNextHop st now dest = .ok (s', hop, found)) : found = false := by
  unfold getNextHop at h
  rw [hdirty, if_pos rfl] at h
  obtain ⟨s1, hupdate, h⟩ := bind_eq_ok.mp h
  unfold updateTopology at hupdate
  obtain ⟨⟨s2, next⟩, hsweep, hupdate⟩ := bind_eq_ok.mp hupdate
  obtain ⟨adj, hroutes, hupdate⟩ := bind_eq_ok.mp hupdate
  cases hupdate
  have hself2 := hself.removeOldNodes hlocked hsweep
  simp only at h
  split at h
  · cases h
    rfl
  · rename_i nd hnd
    cases h
    -- a next hop is the target of an own link, and these go nowhere
    rw [decide_eq_false_iff_not, not_not]
    by_contra hne
    obtain ⟨l, hl, hhop⟩ := (calcRoutes_linked hroutes).nextHop dest nd hnd hne
    rw [(calcRoutes_sameGraph hroutes).linksOf] at hl
    exact hne (hhop.symm.trans (hself2 l hl))

/-- What the reset is for, without the routes. -/
theorem wasReset_iff (hlocked : s.locked = false) (hdirty : s.dirty = true) :
    WasReset st s ↔ (∀ v : NodeId, v ∈ s.adjList ↔ v = st.myNodeId) ∧ SelfLinked st s.adjList := by
  constructor
  · intro h
    exact ⟨h.nodes, fun l hl => (h.nodes _).mp (h.links _ l hl)⟩
  · rintro ⟨hnodes, hself⟩
    refine ⟨hlocked, hnodes, fun u l hl => ?_, fun _ _ _ _ _ h => hself.no_route hlocked hdirty h⟩
    obtain ⟨nd, hu, -⟩ := getElem?_of_mem_linksOf hl
    have hown := (hnodes u).mp ((mem_iff_getElem? _ _).mpr ⟨nd, hu⟩)
    subst hown
    exact (hnodes _).mpr (hself l hl)

end

/-! ### The reset -/

section
variable {st : Station} {now wallClock : AbsTime} {s t : RTopology} {next : AbsTime}

/-- The cleanup leaves `dirty` and the lock as they are. -/
theorem removeOldNodes_keeps (h : s.removeOldNodes now = .ok (t, next)) :
    t.dirty = s.dirty ∧ t.locked = s.locked := by
  unfold removeOldNodes at h
  split at h
  · cases h
  split at h
  · cases h
    exact ⟨rfl, rfl⟩
  · obtain ⟨w, -, h⟩ := bind_eq_ok.mp h
    cases h
    split
    · exact ⟨by rw [(emit_frame _ _).dirty, Bool.or_false], (emit_frame _ _).locked⟩
    · exact ⟨rfl, rfl⟩

/-- The entries in front of the pass: the validities of the other nodes are set. -/
theorem invalidate_lookup (st : Station) (wallClock : AbsTime) (s : RTopology) (v : NodeId) :
    (invalidate st wallClock s).adjList[v]? = s.adjList[v]?.map fun nd =>
      if v ≠ st.myNodeId then { nd with nodeValidity := wallClock, edgeValidity := wallClock }
      else nd := getElem?_mapEntries _ _ _

/-- The own entry stays as it is. -/
theorem invalidate_own (st : Station) (wallClock : AbsTime) (s : RTopology) :
    (invalidate st wallClock s).adjList[st.myNodeId]? = s.adjList[st.myNodeId]? := by
  rw [invalidate_lookup]
  simp

/-- A node is left if it lives longer than the last event. -/
theorem invalidated_left_iff (hlocked : s.locked = false)
    (h : (invalidate st wallClock s).removeOldNodes now = .ok (t, next)) (v : NodeId) :
    v ∈ t.adjList ↔ ∃ nd, s.adjList[v]? = some nd ∧
      now < if v = st.myNodeId then nd.nodeValidity else wallClock := by
  have hunlocked : (invalidate st wallClock s).locked = false := hlocked
  have hout := removeOldNodes_outline hunlocked h v
  rw [invalidate_lookup] at hout
  rw [ExtTreeMap.mem_iff_isSome_getElem?, ← Option.isSome_map (f := outline), hout]
  cases s.adjList[v]? with
  | none => simp
  | some nd =>
    by_cases hv : v = st.myNodeId
    · by_cases hlive : nd.nodeValidity ≤ now <;> by_cases hedge : nd.edgeValidity ≤ now <;>
        simp [passedOutline, outline, hv, hlive, hedge, not_le.mp, not_lt.mpr]
    · by_cases hlive : wallClock ≤ now <;>
        simp [passedOutline, outline, hv, hlive, not_le.mp, not_lt.mpr]

/-- The own links are left if they have not expired. -/
theorem invalidated_selfLinked_iff (hlocked : s.locked = false) {own : NDescr}
    (hown : s.adjList[st.myNodeId]? = some own) (hlive : now < own.nodeValidity)
    (h : (invalidate st wallClock s).removeOldNodes now = .ok (t, next)) :
    SelfLinked st t.adjList ↔ own.edgeValidity ≤ now ∨ SelfLinked st s.adjList := by
  have hunlocked : (invalidate st wallClock s).locked = false := hlocked
  have hlinks := linksOf_outline t.adjList st.myNodeId
  rw [removeOldNodes_outline hunlocked h, invalidate_own, hown, Option.map_some, Option.bind_some,
    passedOutline, outline_nodeValidity, outline_edgeValidity, if_neg (not_le.mpr hlive)] at hlinks
  -- The own links have expired and are all dropped.
  by_cases hedge : own.edgeValidity ≤ now
  · have hnil : t.adjList.linksOf st.myNodeId = [] := by
      rw [if_pos hedge] at hlinks
      exact List.map_eq_nil_iff.mp hlinks
    simp [SelfLinked, hnil, hedge]
  · -- They have not, so the same neighbours are listed as before.
    rw [if_neg hedge] at hlinks
    have hsame : (t.adjList.linksOf st.myNodeId).map shape
        = (s.adjList.linksOf st.myNodeId).map shape := by
      rw [linksOf_of_some hown]
      exact hlinks
    simp only [hedge, false_or]
    constructor
    · intro hself l hl
      obtain ⟨r, hr, hrl⟩ := exists_link_of_shape hsame.symm hl
      exact hrl ▸ hself r hr
    · intro hself l hl
      obtain ⟨r, hr, hrl⟩ := exists_link_of_shape hsame hl
      exact hrl ▸ hself r hr

/-- The reset of an unlocked topology. -/
theorem reset_unlocked_iff (hclock : now ≤ wallClock) (hlocked : s.locked = false)
    (h : (invalidate st wallClock s).removeOldNodes now = .ok (t, next)) :
    ((∀ v : NodeId, v ∈ t.adjList ↔ v = st.myNodeId) ∧ SelfLinked st t.adjList) ↔
      ∃ own, s.adjList[st.myNodeId]? = some own ∧ now < own.nodeValidity ∧
        (wallClock = now ∨ ∀ v ∈ s.adjList, v = st.myNodeId) ∧
        (own.edgeValidity ≤ now ∨ SelfLinked st s.adjList) := by
  have hleft := invalidated_left_iff hlocked h
  constructor
  · rintro ⟨hnodes, hself⟩
    -- The own node was alive, since it is left.
    obtain ⟨own, hown, hlive⟩ := (hleft st.myNodeId).mp ((hnodes _).mpr rfl)
    rw [if_pos rfl] at hlive
    refine ⟨own, hown, hlive, ?_, (invalidated_selfLinked_iff hlocked hown hlive h).mp hself⟩
    by_cases heq : wallClock = now
    · exact .inl heq
    · -- another node would live until the time of the wall clock
      refine .inr fun v hv => ?_
      by_contra hne
      obtain ⟨nd, hnd⟩ := (mem_iff_getElem? _ _).mp hv
      have hmem := (hleft v).mpr
        ⟨nd, hnd, by rw [if_neg hne]; exact lt_of_le_of_ne hclock (Ne.symm heq)⟩
      exact hne ((hnodes v).mp hmem)
  · rintro ⟨own, hown, hlive, hothers, hlinks⟩
    refine ⟨fun v => ⟨fun hv => ?_, fun hv => ?_⟩,
      (invalidated_selfLinked_iff hlocked hown hlive h).mpr hlinks⟩
    · -- Another node that is left would be alive at the time of the reset.
      obtain ⟨nd, hnd, hlater⟩ := (hleft v).mp hv
      rcases hothers with heq | hothers
      · by_contra hne
        rw [if_neg hne, heq] at hlater
        exact absurd hlater (lt_irrefl now)
      · exact hothers v ((mem_iff_getElem? _ _).mpr ⟨nd, hnd⟩)
    · -- The own node is alive, so it is left.
      subst hv
      exact (hleft _).mpr ⟨own, hown, by rw [if_pos rfl]; exact hlive⟩

/-- The reset of a locked topology removes nothing. -/
theorem reset_locked_iff (hlocked : s.locked = true)
    (h : (invalidate st wallClock s).removeOldNodes now = .ok (t, next)) :
    ((∀ v : NodeId, v ∈ t.adjList ↔ v = st.myNodeId) ∧ SelfLinked st t.adjList) ↔
      ∃ own, s.adjList[st.myNodeId]? = some own ∧ (∀ v ∈ s.adjList, v = st.myNodeId) ∧
        SelfLinked st s.adjList := by
  -- A locked topology is only made invalid, not cleaned up.
  have hsame : t = invalidate st wallClock s := by
    unfold removeOldNodes at h
    split at h
    · cases h
    · rw [if_pos (show (invalidate st wallClock s).locked = true from hlocked)] at h
      cases h
      rfl
  subst hsame
  have hmem : ∀ v : NodeId, v ∈ (invalidate st wallClock s).adjList ↔ v ∈ s.adjList := by
    intro v
    rw [ExtTreeMap.mem_iff_isSome_getElem?, ExtTreeMap.mem_iff_isSome_getElem?,
      invalidate_lookup, Option.isSome_map]
  -- The own entry is not made invalid.
  have hself : SelfLinked st (invalidate st wallClock s).adjList ↔ SelfLinked st s.adjList := by
    unfold SelfLinked linksOf
    rw [invalidate_own]
  rw [hself]
  simp only [hmem]
  constructor
  · rintro ⟨hnodes, hlinks⟩
    obtain ⟨own, hown⟩ := (mem_iff_getElem? _ _).mp ((hnodes _).mpr rfl)
    exact ⟨own, hown, fun v hv => (hnodes v).mp hv, hlinks⟩
  · rintro ⟨own, hown, hnodes, hlinks⟩
    refine ⟨fun v => ⟨hnodes v, fun hv => ?_⟩, hlinks⟩
    subst hv
    exact (mem_iff_getElem? _ _).mpr ⟨own, hown⟩

end

/-- `getNextHop` answers if the routes can be computed. -/
theorem getNextHop_returns {st : Station} {now : AbsTime} {s s1 : RTopology}
    (h : s.updateTopology st now = .ok s1) (dest : NodeId) :
    ∃ answer, s.getNextHop st now dest = .ok answer := by
  unfold getNextHop
  by_cases hdirty : s.dirty = true
  · simp only [hdirty, if_true, h, except_bind_ok]
    cases s1.adjList[dest]? with
    | none => exact ⟨_, rfl⟩
    | some nd => exact ⟨_, rfl⟩
  · simp only [hdirty, Bool.false_eq_true, if_false, except_bind_ok]
    cases s.adjList[dest]? with
    | none => exact ⟨_, rfl⟩
    | some nd => exact ⟨_, rfl⟩

/-! ### The command -/

/-- The flood packet is a reset command. -/
def IsReset (p : BasePacket) : Prop := p.buffer Flood.floodHeaderEnd = 2

section
variable {host : Host} {clock : Clock} {r r' : AwdsRouting} {p : BasePacket}

/-- A reset returns as long as there is a node. -/
theorem reset_returns {s : RTopology} (hc : Consistent s.adjList) (hne : s.adjList.isEmpty = false)
    (st : Station) (now wallClock : AbsTime) : ∃ t, s.reset st now wallClock = .ok t := by
  have hne' : (invalidate st wallClock { s with dirty := true }).adjList.isEmpty = false := by
    simpa [invalidate] using hne
  have hc' : Consistent (invalidate st wallClock { s with dirty := true }).adjList :=
    Consistent.invalidate (s := { s with dirty := true }) hc st wallClock
  unfold reset
  by_cases hlocked : s.locked = true
  · refine ⟨invalidate st wallClock { s with dirty := true }, ?_⟩
    simp only [removeOldNodes, hne', Bool.false_eq_true, if_false,
      show (invalidate st wallClock { s with dirty := true }).locked = true from hlocked, if_true,
      except_bind_ok]
  · obtain ⟨adj, next, -, hrun⟩ :=
      removeOldNodes_run now hc' hne' (by simpa [invalidate] using hlocked)
    exact ⟨_, bind_eq_ok.mpr ⟨_, hrun, rfl⟩⟩

/-- A reset invalidates the entries, runs the cleanup and unlocks the topology. -/
theorem topolockRecv_reset (hp : IsReset p) (h : r.topolockRecv host clock p = .ok r') :
    ∃ t next, RTopology.removeOldNodes clock.lastEventTime
        (invalidate host.toStation clock.wallClock { r.topology with dirty := true })
          = .ok (t, next) ∧ r'.topology = { t with locked := false } := by
  unfold AwdsRouting.topolockRecv at h
  simp only [show p.buffer Flood.floodHeaderEnd = 2 from hp] at h
  obtain ⟨t, hreset, h⟩ := bind_eq_ok.mp h
  cases h
  obtain ⟨⟨t', next⟩, hsweep, hreset⟩ := bind_eq_ok.mp hreset
  cases hreset
  exact ⟨t, next, hsweep, rfl⟩

/-- A reset command that is processed at a time when the wall clock is not behind the time of the
last event.

- In every run without a packet that fails the second size check, `topolock_recv` returns as long
  as there is a node, and behind a reset that has done what it is for `getNextHop` answers as long
  as the own node is alive.
- In every state in which `topolock_recv` returns, the reset has done what it is for exactly under
  the condition. -/
theorem reset_works_iff (hp : IsReset p) (hclock : clock.lastEventTime ≤ clock.wallClock) :
    (Reachable host.toStation FeedsWhole r.topology → InRepository host.metric →
      r.topology.adjList.isEmpty = false → ∃ r', r.topolockRecv host clock p = .ok r' ∧
        (WasReset host.toStation r'.topology → ∀ now dest,
          Alive now r'.topology.adjList host.myNodeId →
            ∃ answer, r'.topology.getNextHop host.toStation now dest = .ok answer)) ∧
    ∀ r', r.topolockRecv host clock p = .ok r' →
      (WasReset host.toStation r'.topology ↔
        ResetWorks host.toStation clock.lastEventTime clock.wallClock r.topology) := by
  refine ⟨fun hr hm hne => ?_, fun r' h => ?_⟩
  · -- The reset returns, and a topology that was reset gives routes again.
    obtain ⟨t, hreset⟩ := reset_returns (consistent_of_reachable (reachable_feedsSized hr)) hne
      host.toStation clock.lastEventTime clock.wallClock
    refine ⟨{ r with topology := { t with locked := false } }, ?_, fun hdone now dest halive => ?_⟩
    · simp only [AwdsRouting.topolockRecv, show p.buffer Flood.floodHeaderEnd = 2 from hp, hreset]
      rfl
    · -- the reset and the end of the lock are two events of the run
      have hquiet : ∀ (s : RTopology) (e : Event), (∀ q, e.op ≠ .feed q) → FeedsWhole s e :=
        fun s e he q hq => absurd hq (he q)
      obtain ⟨t0, hrun⟩ := hr
      have hr' : Reachable host.toStation FeedsWhole { t with locked := false } := by
        refine ⟨t0, (hrun.tail ⟨⟨clock.lastEventTime, .reset clock.wallClock⟩,
          hquiet _ _ (by simp), hreset⟩).tail ⟨⟨clock.lastEventTime, .setLocked false⟩,
          hquiet _ _ (by simp), rfl⟩⟩
      -- After the reset only the own node is left, so the routes are computed.
      obtain ⟨hc, hw⟩ := sound_of_reachable (positive_of_installed hm) (reachable_feedsSized hr')
      have hsize : ({ t with locked := false } : RTopology).adjList.size ≤ 1024 := by
        refine (size_le_card {host.myNodeId} fun u hu => ?_).trans (by simp)
        exact Finset.mem_singleton.mpr ((hdone.nodes u).mp hu)
      obtain ⟨s', hs'⟩ := updateTopology_of_alive hc rfl hw hsize halive
      exact getNextHop_returns hs' dest
  · -- What the reset leaves depends on the lock.
    obtain ⟨t, next, hsweep, htop⟩ := topolockRecv_reset hp h
    have hdirty : r'.topology.dirty = true := by
      rw [htop]
      exact (removeOldNodes_keeps hsweep).1
    rw [wasReset_iff (by rw [htop]) hdirty, htop]
    unfold ResetWorks
    cases hlocked : r.topology.locked with
    | true =>
      have hiff := reset_locked_iff (s := { r.topology with dirty := true }) hlocked hsweep
      simpa using hiff
    | false =>
      have hiff := reset_unlocked_iff (s := { r.topology with dirty := true }) hclock hlocked hsweep
      simpa using hiff

end

/-! ### Station 1 gets a reset command -/

/-- A reset command of station 2. -/
def resetPacket : BasePacket :=
  { (Flood.setTTL (SrcPacket.setSrc (BasePacket.new.setType .flood) 2) 2).write
      Flood.floodHeaderEnd [2] with size := Flood.floodHeaderEnd + 1 }

/-- The packet of the example is a reset. -/
theorem isReset_resetPacket : IsReset resetPacket := by
  unfold IsReset
  decide +kernel

/-- Station 1 has heard of the stations 2 and 7 and has no link itself. The two clocks agree. -/
theorem reset_works_linkless :
    ∃ s r', (init (pairHosts false).toStation 0).feed (pairHosts false).toStation 0
        (topoOf 2 5000 [(7, 30)]) = .ok s ∧
      ({ pairRouting false with topology := s } : AwdsRouting).topolockRecv (pairHosts false) ⟨0, 0⟩
        resetPacket = .ok r' ∧ WasReset (pairHosts false).toStation r'.topology := by
  -- The state is computed: no own link, and an own entry that is valid.
  obtain ⟨s, hs, htest⟩ := exists_of_test
    ((init (pairHosts false).toStation 0).feed (pairHosts false).toStation 0
      (topoOf 2 5000 [(7, 30)]))
    (fun s => !s.locked && (s.adjList.linksOf (pairHosts false).myNodeId).isEmpty &&
      s.adjList[(pairHosts false).myNodeId]?.any fun (own : NDescr) =>
        decide (0 < own.nodeValidity))
    (by decide +kernel)
  simp only [Bool.and_eq_true, Bool.not_eq_true', List.isEmpty_iff] at htest
  obtain ⟨⟨hlocked, hnil⟩, hown⟩ := htest
  -- The feed is an event of a run, so the topology is reachable.
  have hsized : FeedsSized ⟨0, .feed (topoOf 2 5000 [(7, 30)])⟩ :=
    fun p hp => by cases hp; decide +kernel
  have hr : Reachable (pairHosts false).toStation FeedsWhole s :=
    ⟨0, .single ⟨⟨0, .feed (topoOf 2 5000 [(7, 30)])⟩, feedsWhole_of_sized hsized, hs⟩⟩
  -- An empty list has only links to the node itself.
  have hself : SelfLinked (pairHosts false).toStation s.adjList := by
    intro l hl
    rw [hnil] at hl
    cases hl
  obtain ⟨own, hentry, hvalid⟩ := (Option.any_eq_true _ _).mp hown
  have hne : s.adjList.isEmpty = false :=
    isEmpty_of_mem ((mem_iff_getElem? _ _).mpr ⟨own, hentry⟩)
  obtain ⟨hreturns, hiff⟩ := @reset_works_iff (pairHosts false) ⟨0, 0⟩
    { pairRouting false with topology := s } resetPacket isReset_resetPacket le_rfl
  obtain ⟨r', hrun, -⟩ := hreturns hr (.inl (.inl rfl)) hne
  refine ⟨s, r', hs, hrun, (hiff r' hrun).mpr ⟨own, hentry, fun h => ?_, fun _ => ?_⟩⟩
  · rw [show s.locked = true from h] at hlocked
    cases hlocked
  · exact ⟨of_decide_eq_true hvalid, .inl rfl, .inr hself⟩

/-- The wall clock is ahead of the last event by a nanosecond: station 2 is left. -/
theorem reset_leaves_nodes :
    ∃ s r', Reachable (pairHosts false).toStation FeedsWhole s ∧ s.locked = false ∧
      ({ pairRouting false with topology := s } : AwdsRouting).topolockRecv (pairHosts false) ⟨0, 1⟩
        resetPacket = .ok r' ∧ (2 : NodeId) ∈ r'.topology.adjList ∧
      ¬ WasReset (pairHosts false).toStation r'.topology := by
  obtain ⟨s, hs, htest⟩ := exists_of_test
    ((init (pairHosts false).toStation 0).feed (pairHosts false).toStation 0
      (topoOf 2 5000 [(7, 30)]))
    (fun s => !s.locked && returnsWith (({ pairRouting false with topology := s } :
        AwdsRouting).topolockRecv (pairHosts false) ⟨0, 1⟩ resetPacket) fun r' =>
      decide ((2 : NodeId) ∈ r'.topology.adjList)) (by decide +kernel)
  rw [Bool.and_eq_true, Bool.not_eq_true'] at htest
  obtain ⟨hlocked, htest⟩ := htest
  have hsized : FeedsSized ⟨0, .feed (topoOf 2 5000 [(7, 30)])⟩ :=
    fun p hp => by cases hp; decide +kernel
  obtain ⟨r', hrun, hnode⟩ := exists_of_returnsWith htest
  have hmem := of_decide_eq_true hnode
  refine ⟨s, r', ⟨0, .single ⟨⟨0, .feed (topoOf 2 5000 [(7, 30)])⟩,
    feedsWhole_of_sized hsized, hs⟩⟩, hlocked, hrun, hmem, fun hdone => ?_⟩
  exact absurd ((hdone.nodes 2).mp hmem) (by decide)

end Awds.Proofs
