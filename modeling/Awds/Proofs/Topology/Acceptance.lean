import Awds.Proofs.Topology.Commute
import Awds.Proofs.Topology.Forwarding

/-!
# `Awds.Proofs.Topology.Acceptance`: when `feed` returns, and what it leaves behind

`feed` ends with the computation of the routes if the graph has changed. That computation
asserts three things: the own node is in the map, no link has the weight 0, and the node a
route comes from is not farther than its end. The second one holds in every run of a metric
without zero weights (`sound_of_reachable`), the third one with at most 1024 nodes,
because then no sum of weights wraps. The first one need not hold: the cleanup in front of
the computation drops the own node if it has expired.

`Alive` says that a node is in the map and has not expired. `Fed.alive_iff` says when this
holds behind the merge. `Ready` collects what `feed` needs, and `Ready.of_feed` and
`Ready.feed` say that it is needed and that it is enough. `Learnt.of_feed` is about the graph
behind a call that returns.
-/

set_option autoImplicit false

namespace Awds.Proofs

open Std (ExtTreeMap)
open Awds.Lib Awds.AdjList Awds.RTopology

/-! ### Weights that are not 0 -/

/-- The metric gives no link the weight 0. -/
def PositiveMetric (m : Metric) : Prop :=
  ∀ f b mw, f ≠ 0 → m.myCalculate f b = .ok mw → mw ≠ 0

/-- A factor of the divisor of `EtxMetric` is at most 32. -/
theorem etxFactor_le (q : UInt16) : (32 - (q / (Metric.maxQuality / 32)).toUInt32).toNat ≤ 32 := by
  have hq := q.toNat_lt
  have hwidth : (Metric.maxQuality / 32).toNat = 2047 := by decide
  have hval : (q / (Metric.maxQuality / 32)).toUInt32.toNat = q.toNat / 2047 := by
    rw [UInt16.toNat_toUInt32, UInt16.toNat_div, hwidth]
  have hle : (q / (Metric.maxQuality / 32)).toUInt32 ≤ 32 := by
    rw [UInt32.le_iff_toNat_le, hval]
    show q.toNat / 2047 ≤ 32
    omega
  rw [UInt32.toNat_sub_of_le _ _ hle]
  exact Nat.sub_le _ _

/-- `EtxMetric` divides 2097152 by at most 1024. -/
theorem etxMetric_pos {f b : UInt16} {mw : UInt32}
    (h : Metric.etxMetric.myCalculate f b = .ok mw) : mw ≠ 0 := by
  simp only [Metric.etxMetric] at h
  split at h
  · cases h
  · rename_i hdiv
    rw [Except.ok.injEq] at h
    subst h
    intro h0
    have h0 := congrArg UInt32.toNat h0
    have hpos : (1024 * 2048 : UInt32).toNat = 2097152 := by decide
    have hzero : (0 : UInt32).toNat = 0 := rfl
    have hprod := Nat.mul_le_mul (etxFactor_le f) (etxFactor_le b)
    rw [UInt32.toNat_div, hpos, hzero, UInt32.toNat_mul, Nat.div_eq_zero_iff] at h0
    rcases h0 with h0 | h0
    · refine hdiv (UInt32.toNat_inj.mp ?_)
      rw [UInt32.toNat_mul]
      exact h0
    · omega

/-- The metrics of the repository give no link the weight 0. -/
theorem positive_of_installed {m : Metric} (h : SymmetricMetric.installed m ∨ m = .ttMetric) :
    PositiveMetric m := by
  -- A quality that is not zero counts at least one.
  have hnum : ∀ f : UInt16, f ≠ 0 → 0 < f.toNat := fun f hf =>
    Nat.pos_of_ne_zero fun h0 => hf (UInt16.toNat_inj.mp h0)
  -- The sum of two of 16 bits does not wrap in 32.
  have hsum : ∀ f b : UInt16, f ≠ 0 → f.toUInt32 + b.toUInt32 ≠ 0 := by
    intro f b hf h0
    have h0 := congrArg UInt32.toNat h0
    rw [UInt32.toNat_add, UInt16.toNat_toUInt32, UInt16.toNat_toUInt32] at h0
    have := hnum f hf
    have := f.toNat_lt
    have := b.toNat_lt
    have : (0 : UInt32).toNat = 0 := rfl
    omega
  intro f b mw hf hmw
  -- One case for each metric.
  rcases h with (rfl | rfl | rfl | rfl) | rfl
  · cases hmw
    decide
  · exact etxMetric_pos hmw
  · cases hmw
    exact hsum f b hf
  · cases hmw
    exact hsum f b hf
  · cases hmw
    intro h0
    have h0 := congrArg UInt32.toNat h0
    rw [UInt16.toNat_toUInt32] at h0
    exact (hnum f hf).ne' h0

/-- A weight that `calculate` stores is one that `calcRoutes` accepts. -/
theorem linkWeight_in {m : Metric} (hm : PositiveMetric m) {f : UInt16} (hf : f ≠ 0)
    {b : Option UInt16} {w : UInt32} (h : linkWeight m f b = .ok w) :
    1 ≤ w.toNat ∧ w.toNat ≤ Metric.ceiling.toNat := by
  cases b with
  | none =>
    cases h
    decide
  | some b =>
    obtain ⟨mw, hmw, h⟩ := bind_eq_ok.mp h
    cases h
    have hpos : mw.toNat ≠ 0 := fun h0 => hm f b mw hf hmw (UInt32.toNat_inj.mp h0)
    have hmin : min mw Metric.ceiling = if mw ≤ Metric.ceiling then mw else Metric.ceiling := rfl
    rw [hmin]
    split
    · rename_i hle
      exact ⟨Nat.one_le_iff_ne_zero.mpr hpos, UInt32.le_iff_toNat_le.mp hle⟩
    · decide

/-- The merge writes weights that `calculate` has computed and keeps the others. -/
theorem Merged.weightsIn {st : Station} {now newValidity : AbsTime} {src : NodeId} {s : RTopology}
    {adj : AdjList} {ns : NDescr} {links : List LinkQuality} {name : List UInt8}
    (hm : PositiveMetric st.metric) (hs : s.adjList[src]? = some ns)
    (hpos : ∀ l ∈ links, l.quality ≠ 0)
    (hok : ∀ l ∈ links, ∃ w, weightOf st.metric (s.swapLinks src newValidity links).adjList src l
      = .ok w)
    (h : Merged st now newValidity src (s.swapLinks src newValidity links).adjList
      (swappedEntry s newValidity links ns) ns.links name adj) (hw : WeightsIn s.adjList) :
    WeightsIn adj := by
  set adj0 := (s.swapLinks src newValidity links).adjList with hadj0
  -- The links that the packet lists have their weight from the metric.
  have hnew : ∀ l ∈ links, 1 ≤ (weightD st.metric adj0 src l).toNat ∧
      (weightD st.metric adj0 src l).toNat ≤ Metric.ceiling.toNat := by
    intro l hl
    obtain ⟨w, hlw⟩ := hok l hl
    rw [weightD, hlw]
    exact linkWeight_in hm (hpos l hl) hlw
  intro u l hl
  obtain ⟨nd, hu, hl⟩ := getElem?_of_mem_linksOf hl
  by_cases hus : u = src
  · -- The links of the source are those of the packet.
    subst hus
    rw [h.source, Option.some.injEq] at hu
    subst hu
    obtain ⟨r, hr, rfl⟩ := List.mem_map.mp hl
    exact hnew r hr
  · -- An old link has a weight in range already.
    have hold : ∀ r ∈ (entryOf st now adj0 u).links,
        1 ≤ r.metricWeight.toNat ∧ r.metricWeight.toNat ≤ Metric.ceiling.toNat := by
      intro r hr
      rw [entryOf_swapLinks hs hus, ← linksOf_eq_entryOf] at hr
      exact hw u r hr
    rcases h.cases hus with ⟨r, hr, rfl, heq⟩ | ⟨-, -, heq⟩ | ⟨-, -, heq⟩
    · -- a neighbour of the source: only its link to the source has another weight
      rw [hu, Option.some.injEq] at heq
      subst heq
      rw [attachedEntry, NDescr.links_mapLink, raisedEntry,
        NDescr.links_updateNodeValidity] at hl
      obtain ⟨x, hx, rfl⟩ := List.mem_map.mp hl
      split
      · exact hnew r hr
      · exact hold x hx
    · -- A neighbour that is listed no more only loses a counterpart.
      rw [hu, Option.some.injEq] at heq
      subst heq
      rw [detachedEntry, NDescr.links_mapLink] at hl
      obtain ⟨x, hx, rfl⟩ := List.mem_map.mp hl
      split
      · exact hold x hx
      · exact hold x hx
    · -- Any other entry is the old one.
      rw [hu] at heq
      refine hold l ?_
      rw [entryOf_of_some heq.symm]
      exact hl

/-- The cleanup keeps the weights of the links that are left. -/
theorem Swept.weightsIn {t : AbsTime} {adj adj' : AdjList} (h : Swept t adj adj')
    (hw : WeightsIn adj) : WeightsIn adj' := by
  intro u l hl
  obtain ⟨nd', hu, hl⟩ := getElem?_of_mem_linksOf hl
  obtain ⟨nd, hnd, -, -, -, hlinks⟩ := h.links hu
  rw [hlinks] at hl
  split at hl
  · cases hl
  · obtain ⟨r, hr, rfl⟩ := List.mem_map.mp hl
    have hweight : (survivingLink t adj r).metricWeight = r.metricWeight := by
      unfold survivingLink
      split <;> rfl
    rw [hweight]
    exact hw u r (by rw [linksOf_of_some hnd]; exact hr)

/-- Maps with the same links have the same weights. -/
theorem WeightsIn.congr {adj adj' : AdjList} (hw : WeightsIn adj)
    (h : ∀ u, adj'.linksOf u = adj.linksOf u) : WeightsIn adj' := fun u l hl =>
  hw u l (h u ▸ hl)

/-- An event keeps the weights in the range of `calculate`. -/
theorem WeightsIn.exec {st : Station} {e : Event} {s s' : RTopology}
    (hm : PositiveMetric st.metric) (hc : Consistent s.adjList) (hw : WeightsIn s.adjList)
    (he : FeedsSized e) (hrun : s.exec st e = .ok s') : WeightsIn s'.adjList := by
  refine (exec_keeps (P := fun s => Consistent s.adjList ∧ WeightsIn s.adjList)
    ?_ ?_ ?_ ?_ ?_ ?_ ?_ ⟨hc, hw⟩ he hrun).2
  · -- A new entry has no links.
    rintro s id ⟨hc, hw⟩
    exact ⟨hc.getNodeEntry st e.now id, hw.congr (linksOf_getNodeEntry st e.now s id)⟩
  · -- The links of a packet are merged.
    rintro s p links s' ⟨hc, hw⟩ hmem - hnew hpos hrun
    obtain ⟨ns, hns⟩ := (mem_iff_getElem? _ _).mp hmem
    obtain ⟨hmerged, -, hok⟩ := mergeLinks_spec hns hc.ascending hnew hrun
    exact ⟨hmerged.consistent hc hns hnew, hmerged.weightsIn hm hns hpos hok hw⟩
  · -- The cleanup only takes entries and links away.
    rintro s s' next ⟨hc, hw⟩ hrun
    rcases removeOldNodes_cases hc hrun with ⟨-, rfl⟩ | ⟨-, adj', hswept, rfl⟩
    · exact ⟨hc, hw⟩
    · rw [sweptState_adjList]
      exact ⟨hswept.consistent, hswept.weightsIn hw⟩
  · -- The routes leave the graph as it is.
    rintro s adj ⟨hc, hw⟩ hrun
    have hsame := calcRoutes_sameGraph hrun
    exact ⟨hc.of_sameGraph hsame, hw.congr hsame.linksOf⟩
  · -- The reset sets validities and leaves the links.
    rintro t s - ⟨hc, hw⟩
    refine ⟨Consistent.invalidate (s := { s with dirty := true }) hc st t, hw.congr fun u => ?_⟩
    simp only [RTopology.invalidate, linksOf, getElem?_mapEntries]
    cases s.adjList[u]? with
    | none => rfl
    | some nd =>
      simp only [Option.map_some]
      split <;> rfl
  · exact fun s b h => h
  · exact fun s h => h

/-- In every state of every run whose packets pass the size checks, the map is consistent
and its weights are in the range of `calculate`. -/
theorem sound_of_reachable {st : Station} {s : RTopology} (hm : PositiveMetric st.metric)
    (hr : Reachable st (fun _ e => FeedsSized e) s) :
    Consistent s.adjList ∧ WeightsIn s.adjList := by
  refine hr.invariant (P := fun s => Consistent s.adjList ∧ WeightsIn s.adjList) ?_ ?_
  · intro t
    refine ⟨consistent_init st t, fun u l hl => ?_⟩
    obtain ⟨nd, hu, hl⟩ := getElem?_of_mem_linksOf hl
    rw [init, getElem?_insertAt] at hu
    split at hu
    · cases hu
      cases hl
    · simp at hu
  · rintro s e s' ⟨hc, hw⟩ he hrun
    exact ⟨hc.exec he hrun, hw.exec hm hc he hrun⟩

/-! ### The own node -/

/-- The node `u` is in the map and has not expired. -/
def Alive (t : AbsTime) (adj : AdjList) (u : NodeId) : Prop :=
  ∃ nd, adj[u]? = some nd ∧ t < nd.nodeValidity

/-- A map whose nodes are in `nodes` is not larger than `nodes`. -/
theorem size_le_card {adj : AdjList} (nodes : Finset NodeId) (h : ∀ u ∈ adj, u ∈ nodes) :
    adj.size ≤ nodes.card := by
  rw [← ExtTreeMap.length_keys, ← List.toFinset_card_of_nodup ExtTreeMap.nodup_keys]
  refine Finset.card_le_card fun u hu => h u ?_
  rwa [List.mem_toFinset, ExtTreeMap.mem_keys] at hu

section
variable {st : Station} {now : AbsTime} {s s' : RTopology}

/-- What an unlocked `updateTopology` does. -/
theorem updateTopology_cases (hc : Consistent s.adjList) (hlocked : s.locked = false)
    (h : s.updateTopology st now = .ok s') :
    ∃ adj', Swept now s.adjList adj' ∧ SameGraph adj' s'.adjList ∧ st.myNodeId ∈ adj' := by
  obtain ⟨⟨s1, next⟩, hsweep, h⟩ := bind_eq_ok.mp h
  obtain ⟨adj, hroutes, h⟩ := bind_eq_ok.mp h
  cases h
  rcases removeOldNodes_cases hc hsweep with ⟨hl, -⟩ | ⟨-, adj', hswept, rfl⟩
  · rw [hlocked] at hl
    cases hl
  · simp only [sweptState_adjList] at hroutes
    refine ⟨adj', hswept, calcRoutes_sameGraph hroutes, ?_⟩
    by_contra hmy
    rw [calcRoutes, if_pos hmy] at hroutes
    cases hroutes

/-- `updateTopology` returns if the own node is alive. -/
theorem updateTopology_of_alive (hc : Consistent s.adjList) (hlocked : s.locked = false)
    (hw : WeightsIn s.adjList) (hsize : s.adjList.size ≤ 1024)
    (ha : Alive now s.adjList st.myNodeId) : ∃ s', s.updateTopology st now = .ok s' := by
  obtain ⟨nd, hnd, hlive⟩ := ha
  obtain ⟨adj', next, hswept, hsweep⟩ := removeOldNodes_run now hc
    (isEmpty_of_mem ((mem_iff_getElem? _ _).mpr ⟨nd, hnd⟩)) hlocked
  have hsmall : adj'.size ≤ 1024 := by
    refine (size_le_card s.adjList.keys.toFinset fun u hu => ?_).trans ?_
    · obtain ⟨n, hn, -⟩ := (hswept.mem_iff u).mp hu
      rw [List.mem_toFinset, ExtTreeMap.mem_keys, mem_iff_getElem?]
      exact ⟨n, hn⟩
    · refine (List.toFinset_card_le _).trans ?_
      rw [ExtTreeMap.length_keys]
      exact hsize
  obtain ⟨adj, hroutes, -⟩ := calcRoutes_correct ((hswept.mem_iff _).mpr ⟨nd, hnd, hlive⟩) hsmall
    (hswept.weightsIn hw)
  refine ⟨{ sweptState now s adj' with adjList := adj, dirty := false }, ?_⟩
  simp only [RTopology.updateTopology, hsweep, except_bind_ok, sweptState_adjList, hroutes]

end

/-! ### When `feed` returns -/

/-- The packet passes the checks and the assertions of `feed` on its content: it is long
enough for its links, its validity is not 0, and its links ascend and have qualities. -/
structure WellFormed (p : BasePacket) : Prop where
  size : SizeOk p
  valid : 0 < TopoPacket.getValidity p
  links : ∃ links,
    parseLinks p.buffer (TopoPacket.getNumLinks p) TopoPacket.offsetLinks none = .ok links

/-- The quality of the reverse link of the link `l` of the packet. A link of the source to
itself is its own reverse link. -/
def reverseQuality (s : RTopology) (p : BasePacket) (l : LinkQuality) : Option UInt16 :=
  if l.neighbor = SrcPacket.getSrc p then some l.quality
  else qualityAt s.adjList l.neighbor (SrcPacket.getSrc p)

/-- What `feed` needs beyond a packet that is well-formed:

- `metric`: the metric has a result for every link of the packet with a reverse link;
- `alive`: if the routes are computed, the own node is alive behind the merge. It is alive
  already, or the packet comes from it or lists it, or it is missing and the packet is from
  a node with a link to it, whose entry the merge looks up. -/
structure Ready (st : Station) (now : AbsTime) (s : RTopology) (p : BasePacket) : Prop where
  metric : ∀ l ∈ packetLinks p, ∀ b, reverseQuality s p l = some b →
    ∃ mw, st.metric.myCalculate l.quality b = .ok mw
  alive : s.dirty = true ∨ hasNews s p = true →
    st.myNodeId = SrcPacket.getSrc p ∨ Lists p st.myNodeId ∨ Alive now s.adjList st.myNodeId ∨
      st.myNodeId ∉ s.adjList ∧ HasLink s.adjList (SrcPacket.getSrc p) st.myNodeId

/-- The nodes behind the merge: those of the map, the source, and the neighbours of its new
and its old links. -/
def nodesBehind (s : RTopology) (p : BasePacket) : Finset NodeId :=
  (SrcPacket.getSrc p :: (s.adjList.keys ++ (packetLinks p).map LinkQuality.neighbor ++
    (s.adjList.linksOf (SrcPacket.getSrc p)).map LinkQuality.neighbor)).toFinset

section
variable {st : Station} {now : AbsTime} {s s1 s' : RTopology} {p : BasePacket} {ns : NDescr}

/-- The weight of a link of the packet, in terms of the state in front of `feed`. -/
theorem weightOf_eq (st : Station) (now newValidity : AbsTime) (m : Metric)
    (hall : AllAscending s.adjList) (hasc : AscendingLinks (packetLinks p)) {l : LinkQuality}
    (hl : l ∈ packetLinks p) :
    weightOf m ((s.getNodeEntry st now (SrcPacket.getSrc p)).swapLinks (SrcPacket.getSrc p)
      newValidity (packetLinks p)).adjList (SrcPacket.getSrc p) l
      = linkWeight m l.quality (reverseQuality s p l) := by
  have hent := getNodeEntry_lookup st now s (SrcPacket.getSrc p)
  have hstart := mergeStart_swapLinks newValidity hent (hall.getNodeEntry st now _) hasc
  show linkWeight m l.quality (qualityAt _ l.neighbor (SrcPacket.getSrc p)) = _
  congr 1
  unfold reverseQuality
  split
  · rename_i hself
    have := qualityAt_eq_some hstart.ascending hstart.entry hl
    rw [hself] at this ⊢
    exact this
  · rename_i hne
    rw [qualityAt_swapLinks hent hne]
    exact qualityAt_congr (by rw [linksOf_getNodeEntry]) _

theorem linkWeight_ok_iff (m : Metric) (f : UInt16) (b : Option UInt16) :
    (∃ w, linkWeight m f b = .ok w) ↔ ∀ x, b = some x → ∃ mw, m.myCalculate f x = .ok mw := by
  cases b with
  | none => simp [linkWeight]
  | some b =>
    simp only [linkWeight, Option.some.injEq, forall_eq']
    cases m.myCalculate f b with
    | error e => simp
    | ok mw => simp

/-- The merge returns where the metric has its results. -/
theorem Fed.of_wellFormed (now : AbsTime) (hc : Consistent s.adjList) (hlocked : s.locked = false)
    (hp : WellFormed p)
    (hmetric : ∀ l ∈ packetLinks p, ∀ b, reverseQuality s p l = some b →
      ∃ mw, st.metric.myCalculate l.quality b = .ok mw) :
    ∃ ns s1, Fed st now s p ns s1 ∧
      s.feed st now p = if s1.dirty then s1.updateTopology st now else .ok s1 := by
  obtain ⟨links, hparse⟩ := hp.links
  have hlinks := packetLinks_of_ok hparse
  have hasc := (parseLinks_ascending _ _ _ _ _ hparse).1
  have hc0 := hc.getNodeEntry st now (SrcPacket.getSrc p)
  have hmerged : ∃ s1, (s.getNodeEntry st now (SrcPacket.getSrc p)).mergeLinks st now
      (now + TopoPacket.getValidity p) p links = .ok s1 := by
    refine mergeLinks_ok (getNodeEntry_lookup st now s (SrcPacket.getSrc p)) hc0.ascending hasc ?_
    subst hlinks
    intro l hl
    rw [weightOf_eq st now _ _ hc.ascending hasc hl, linkWeight_ok_iff]
    exact hmetric l hl
  obtain ⟨s1, hmerge⟩ := hmerged
  obtain ⟨ns, hf⟩ := Fed.of_merge hc hp.valid hparse hmerge
  refine ⟨ns, s1, hf, ?_⟩
  rw [feed_run st now hlocked hp.size hp.valid, hparse, except_bind_ok, hmerge, except_bind_ok]

/-- The nodes that are alive behind the merge. -/
theorem Fed.alive_iff (hf : Fed st now s p ns s1) (hc : Consistent s.adjList) (u : NodeId) :
    Alive now s1.adjList u ↔ u = SrcPacket.getSrc p ∨ Lists p u ∨ Alive now s.adjList u ∨
      u ∉ s.adjList ∧ HasLink s.adjList (SrcPacket.getSrc p) u := by
  have hval : now < now + TopoPacket.getValidity p := lt_add_of_pos_right now hf.valid
  by_cases hu : u = SrcPacket.getSrc p
  · -- the source has got the new validity
    refine ⟨fun _ => .inl hu, fun _ => ⟨_, hu ▸ hf.merged.source, ?_⟩⟩
    simp only [NDescr.mapLinks, swappedEntry, NDescr.nodeValidity_updateNodeValidity]
    exact lt_max_of_lt_right hval
  · have hbefore : ((s.getNodeEntry st now (SrcPacket.getSrc p)).swapLinks (SrcPacket.getSrc p)
        (now + TopoPacket.getValidity p) (packetLinks p)).adjList[u]? = s.adjList[u]? := by
      rw [swapLinks_lookup hf.lookup, if_neg hu, getNodeEntry_adjList, getElem?_insertAt,
        if_neg (Ne.symm hu)]
    have hold : (∃ l ∈ ns.links, l.neighbor = u) ↔
        HasLink s.adjList (SrcPacket.getSrc p) u := by
      rw [hf.entry, ← linksOf_eq_entryOf, hasLink_iff hc.ascending]
    rcases hf.merged.cases hu with ⟨l, hl, rfl, heq⟩ | ⟨hgone, hlost, heq⟩ | ⟨hgone, hkept, heq⟩
    · -- a neighbour of the source has got the new validity, too
      refine ⟨fun _ => .inr (.inl ⟨l, hl, rfl⟩), fun _ => ⟨_, heq, ?_⟩⟩
      simp only [attachedEntry, NDescr.mapLink, raisedEntry,
        NDescr.nodeValidity_updateNodeValidity]
      exact lt_max_of_lt_right hval
    · -- a neighbour that is listed no more keeps its validity, or has a new entry
      have hlists : ¬ Lists p u := by
        rintro ⟨l, hl, hlu⟩
        exact hgone l hl hlu
      simp only [Alive, heq, Option.some.injEq, exists_eq_left', hu, hlists, false_or,
        hold.mp hlost, and_true]
      show now < (entryOf st now _ u).nodeValidity ↔ _
      rw [entryOf_congr hbefore, not_mem_iff_getElem?]
      cases hnd : s.adjList[u]? with
      | none =>
        simp only [entryOf, hnd, or_true, iff_true]
        exact lt_add_of_pos_right now (by decide)
      | some nd => simp [entryOf_of_some hnd]
    · -- Any other entry is untouched.
      have hlists : ¬ Lists p u := by
        rintro ⟨l, hl, hlu⟩
        exact hgone l hl hlu
      have hlink : ¬ HasLink s.adjList (SrcPacket.getSrc p) u := by
        rw [← hold]
        rintro ⟨l, hl, hlu⟩
        exact hkept l hl hlu
      simp only [Alive, heq, hbefore, hu, hlists, hlink, false_or, and_false, or_false]

/-- A packet on which `feed` returns has found the topology ready for it. -/
theorem Ready.of_feed (hc : Consistent s.adjList) (hlocked : s.locked = false) (hp : SizeOk p)
    (h : s.feed st now p = .ok s') : Ready st now s p := by
  obtain ⟨ns, s1, hf, h⟩ := Fed.of_feed hc hp hlocked h
  refine ⟨fun l hl => ?_, fun hnews => ?_⟩
  · rw [← linkWeight_ok_iff, ← weightOf_eq st now _ _ hc.ascending hf.ascending hl]
    exact hf.weights l hl
  · rw [if_pos (by rw [hf.dirty, Bool.or_eq_true]; exact hnews)] at h
    obtain ⟨adj', hswept, -, hmy⟩ :=
      updateTopology_cases (hf.consistent hc) (hf.locked.trans hlocked) h
    exact (hf.alive_iff hc _).mp ((hswept.mem_iff _).mp hmy)

/-- `feed` returns on a packet that is well-formed if the topology is ready for it. -/
theorem Ready.feed (hm : PositiveMetric st.metric) (hc : Consistent s.adjList)
    (hw : WeightsIn s.adjList) (hlocked : s.locked = false) (hp : WellFormed p)
    (hsize : s.dirty = true ∨ hasNews s p = true → (nodesBehind s p).card ≤ 1024)
    (h : Ready st now s p) : ∃ s', s.feed st now p = .ok s' := by
  obtain ⟨ns, s1, hf, hrun⟩ := Fed.of_wellFormed now hc hlocked hp h.metric
  rw [hrun]
  by_cases hd : s1.dirty
  · rw [if_pos hd]
    rw [hf.dirty, Bool.or_eq_true] at hd
    obtain ⟨links, hparse⟩ := hp.links
    have hpos := (parseLinks_ascending _ _ _ _ _ hparse).2.2
    rw [← packetLinks_of_ok hparse] at hpos
    have hw1 : WeightsIn s1.adjList :=
      hf.merged.weightsIn hm hf.lookup hpos hf.weights (hw.congr (linksOf_getNodeEntry st now s _))
    refine updateTopology_of_alive (hf.consistent hc) (hf.locked.trans hlocked) hw1 ?_
      ((hf.alive_iff hc _).mpr (h.alive hd))
    refine (size_le_card _ fun u hu => ?_).trans (hsize hd)
    -- a node behind the merge was there, is the source, or is a neighbour of the source
    have hold : ns.links = s.adjList.linksOf (SrcPacket.getSrc p) := by
      rw [hf.entry, ← linksOf_eq_entryOf]
    rw [hf.merged.mem_iff hf.lookup, getNodeEntry_adjList, hold] at hu
    simp only [nodesBehind, List.mem_toFinset, List.mem_cons, List.mem_append, List.mem_map,
      ExtTreeMap.mem_keys, or_assoc]
    rcases hu with hu | hu | hu
    · rw [ExtTreeMap.mem_insert, compare_eq_iff_eq] at hu
      exact hu.elim (fun h => .inl h.symm) fun h => .inr (.inl h)
    · exact .inr (.inr (.inl hu))
    · exact .inr (.inr (.inr hu))
  · exact ⟨s1, if_neg hd⟩

end

/-! ### What `feed` leaves behind -/

/-- What a topology has learnt from a packet of `src` between `s` and `s'`:

- `source`: the source has the links, the validity and the name of the packet;
- `others`: another node has the neighbours and the qualities from before, or no links
  because they had expired. -/
structure Learnt (now : AbsTime) (s s' : RTopology) (src : NodeId)
    (links : List (NodeId × UInt16)) (validity : AbsTime) (name : List UInt8) : Prop where
  source : ∃ nd, s'.adjList[src]? = some nd ∧ nd.links.map shape = links ∧
    nd.edgeValidity = validity ∧ nd.nodeName = name
  others : ∀ u, u ≠ src →
    (s'.adjList.linksOf u).map shape = (s.adjList.linksOf u).map shape ∨
      edgesExpired now s.adjList u = true ∧ s'.adjList.linksOf u = []

section
variable {st : Station} {now : AbsTime} {s s1 s' : RTopology} {p : BasePacket} {ns : NDescr}
  {name : List UInt8}

/-- The merge learns the packet. -/
theorem Fed.learnt (hf : Fed st now s p ns s1) (hname : packetName p = some name) :
    Learnt now s s1 (SrcPacket.getSrc p) ((packetLinks p).map shape)
      (now + TopoPacket.getValidity p) name where
  source := by
    refine ⟨_, hf.merged.source, ?_, rfl, ?_⟩
    · rw [← hf.shape_source, linksOf_of_some hf.merged.source]
    · show nameBehind p ns.nodeName = name
      rw [nameBehind, hname, Option.getD_some]
  others := fun _ hu => .inl (hf.shape_of_ne hu)

/-- What was learnt survives the cleanup and the computation of the routes, if the new
validity lies ahead. -/
theorem Learnt.updateTopology {src : NodeId} {links : List (NodeId × UInt16)}
    {validity : AbsTime} (h : Learnt now s s1 src links validity name) (hval : now < validity)
    (hexp : ∀ u, u ≠ src → edgesExpired now s1.adjList u = edgesExpired now s.adjList u)
    (hc : Consistent s1.adjList) (hlocked : s1.locked = false)
    (hrun : s1.updateTopology st now = .ok s') : Learnt now s s' src links validity name := by
  obtain ⟨adj', hswept, hgraph, -⟩ := updateTopology_cases hc hlocked hrun
  constructor
  · -- The validities of the source lie ahead, so the cleanup passes it over.
    obtain ⟨nd, hnd, hlinks, hedge, hname⟩ := h.source
    have hfresh : now < nd.edgeValidity := hedge ▸ hval
    have hlive : now < nd.nodeValidity := hfresh.trans_le (hc.validity _ _ hnd)
    have hentry := hgraph src
    rw [hswept.entry, hnd, Option.bind_some, survivingEntry, if_neg hlive.not_ge,
      if_neg hfresh.not_ge, Option.map_some, Option.map_eq_some_iff] at hentry
    obtain ⟨nd', hnd', hsame⟩ := hentry
    have hlist : nd'.links = nd.links.map (survivingLink now s1.adjList) :=
      congrArg NDescr.links hsame
    refine ⟨nd', hnd', ?_, ?_, ?_⟩
    · rw [hlist, ← hlinks, List.map_map]
      exact List.map_congr_left fun l _ => shape_survivingLink now s1.adjList l
    · exact (congrArg NDescr.edgeValidity hsame).trans hedge
    · exact (congrArg NDescr.nodeName hsame).trans hname
  · -- Another entry is as it was, or its links were due.
    intro u hu
    rw [hgraph.linksOf]
    cases hold : edgesExpired now s.adjList u with
    | true =>
      refine .inr ⟨rfl, ?_⟩
      rw [hswept.linksOf_eq hc, hexp u hu, hold, if_pos rfl]
    | false =>
      rw [hswept.shape_eq hc ((hexp u hu).trans hold)]
      refine (h.others u hu).imp id fun hno => ?_
      rw [hold] at hno
      exact absurd hno.1 Bool.false_ne_true

/-- A packet that passes the size checks and on which `feed` returns has been learnt. -/
theorem Learnt.of_feed (hc : Consistent s.adjList) (hlocked : s.locked = false) (hp : SizeOk p)
    (hname : packetName p = some name) (h : s.feed st now p = .ok s') :
    Learnt now s s' (SrcPacket.getSrc p) ((packetLinks p).map shape)
      (now + TopoPacket.getValidity p) name := by
  obtain ⟨ns, s1, hf, h⟩ := Fed.of_feed hc hp hlocked h
  split at h
  · refine (hf.learnt hname).updateTopology (lt_add_of_pos_right now hf.valid) (fun u hu => ?_)
      (hf.consistent hc) (hf.locked.trans hlocked) h
    rw [hf.edgesExpired_eq, if_neg hu]
  · cases h
    exact hf.learnt hname

end

end Awds.Proofs
