import Awds.Proofs.Topology.Feed

/-!
# `Awds.Proofs.Topology.Weights`: the weight of a link follows the two qualities

The weight of a link is computed from its quality and the quality of its reverse link, and
a link without a reverse link gets the ceiling. `feed` computes the weights of the links in
the packet, and `set_metric_weight` writes the weight to the reverse link too, which is
right for a symmetric metric.

Neither `feed` nor `removeOldNodes` computes the weight of a link again when its reverse
link is dropped. So a weight goes stale exactly when a step drops a link and keeps its
reverse link. `KeepsReverse` excludes such steps, in terms of the state in front of the
step. `WeightsOk` carries an exception `skip` for the links that are stale between the
merge and the cleanup of one `feed`.
-/

set_option autoImplicit false

namespace Awds.Proofs

open Std (ExtTreeMap)
open Awds.Lib Awds.AdjList Awds.RTopology

/-! ### Symmetric metrics -/

/-- The metric does not depend on the direction. -/
def SymmetricMetric (m : Metric) : Prop := ∀ f b, m.myCalculate f b = m.myCalculate b f

/-- The metrics of the repository that do not depend on the direction. -/
def SymmetricMetric.installed (m : Metric) : Prop :=
  m = .hopCount ∨ m = .etxMetric ∨ m = .rttMetric ∨ m = .pktPair

/-- These metrics add or multiply what they make of the two qualities, or do not look at them. -/
theorem symmetric_of_installed {m : Metric} (h : SymmetricMetric.installed m) :
    SymmetricMetric m := by
  rcases h with rfl | rfl | rfl | rfl
  · exact fun _ _ => rfl
  · intro f b
    simp only [Metric.etxMetric]
    rw [mul_comm]
  · intro f b
    simp only [Metric.rttMetric]
    rw [add_comm]
  · intro f b
    simp only [Metric.pktPair]
    rw [add_comm]

/-- The weight of a link and that of its reverse link are the same under such a metric. -/
theorem linkWeight_symm {m : Metric} (hm : SymmetricMetric m) (f b : UInt16) :
    linkWeight m f (some b) = linkWeight m b (some f) := by
  simp only [linkWeight, hm f b]

/-! ### The weights of a map -/

/-- The weights are those of the stored qualities, except for the links in `skip`. -/
def WeightsOk (m : Metric) (adj : AdjList) (skip : NodeId → NodeId → Prop) : Prop :=
  ∀ (u : NodeId) (nd : NDescr), adj[u]? = some nd → ∀ l ∈ nd.links, ¬ skip u l.neighbor →
    linkWeight m l.quality (qualityAt adj l.neighbor u) = .ok l.metricWeight

/-- The same links with the same weights. -/
theorem WeightsOk.congr {m : Metric} {adj adj' : AdjList} {skip : NodeId → NodeId → Prop}
    (h : WeightsOk m adj skip) (hlinks : ∀ u, adj'.linksOf u = adj.linksOf u) :
    WeightsOk m adj' skip := by
  intro u nd hu l hl hskip
  have hl' : l ∈ adj.linksOf u := by
    rw [← hlinks, linksOf_of_some hu]
    exact hl
  obtain ⟨n, hn, hl'⟩ := getElem?_of_mem_linksOf hl'
  have hq : qualityAt adj' l.neighbor u = qualityAt adj l.neighbor u :=
    qualityAt_congr (by rw [hlinks]) u
  rw [hq]
  exact h u n hn l hl' hskip

/-! ### The merge -/

section
variable {st : Station} {now newValidity : AbsTime} {src : NodeId} {s : RTopology}
  {adj : AdjList} {ns : NDescr} {links : List LinkQuality} {name : List UInt8}

/-- The links whose weight the merge computes: those of the source and their reverse
links. -/
def Touches (src : NodeId) (links : List LinkQuality) (u v : NodeId) : Prop :=
  (u = src ∧ ∃ l ∈ links, l.neighbor = v) ∨ (v = src ∧ ∃ l ∈ links, l.neighbor = u)

/-- A link of a node other than the source that the merge does not touch was there before,
with the same quality and weight. -/
def Kept (s : RTopology) (u : NodeId) (l : LinkQuality) : Prop :=
  ∃ n, s.adjList[u]? = some n ∧
    ∃ r ∈ n.links, shape r = shape l ∧ r.metricWeight = l.metricWeight

/-- A link in the entry of another node behind the swap was there in front of it. -/
theorem kept_of_entryOf (hs : s.adjList[src]? = some ns) {u : NodeId} (hus : u ≠ src)
    {r : LinkQuality}
    (hr : r ∈ (entryOf st now (s.swapLinks src newValidity links).adjList u).links) :
    Kept s u r := by
  rw [entryOf_swapLinks hs hus] at hr
  exact ⟨_, getElem?_of_mem_links hr, r, hr, rfl, rfl⟩

/-- Outside of the source, only a link to the source can be touched. -/
theorem not_touches {u v : NodeId} (hus : u ≠ src)
    (h : v = src → ∀ l ∈ links, l.neighbor ≠ u) : ¬Touches src links u v := by
  rintro (⟨hsrc, -⟩ | ⟨hv, l, hl, hlu⟩)
  · exact hus hsrc
  · exact h hv l hl hlu

/-- The weights behind the merge: those it has computed are right, and the others are the
ones from before. -/
theorem Merged.weight (hm : SymmetricMetric st.metric) (hc : Consistent s.adjList)
    (hs : s.adjList[src]? = some ns) (hnew : AscendingLinks links)
    (h : Merged st now newValidity src (s.swapLinks src newValidity links).adjList
      (swappedEntry s newValidity links ns) ns.links name adj)
    (hok : ∀ l ∈ links, ∃ w, weightOf st.metric (s.swapLinks src newValidity links).adjList src l
      = .ok w) {u : NodeId} {nd : NDescr} (hu : adj[u]? = some nd) {l : LinkQuality}
    (hl : l ∈ nd.links) :
    (Touches src links u l.neighbor →
      linkWeight st.metric l.quality (qualityAt adj l.neighbor u) = .ok l.metricWeight) ∧
    (¬ Touches src links u l.neighbor → u ≠ src ∧ Kept s u l) := by
  have hasc0 := (mergeStart_swapLinks newValidity hs hc.ascending hnew).ascending
  have hq := h.qualityAt_eq hs hnew
  set adj0 := (s.swapLinks src newValidity links).adjList with hadj0
  have hsrc : adj0[src]? = some (swappedEntry s newValidity links ns) := by
    rw [hadj0, swapLinks_lookup hs, if_pos rfl]
  -- The weight that was written is the one of the two qualities.
  have hweight : ∀ l ∈ links, linkWeight st.metric l.quality (qualityAt adj0 l.neighbor src)
      = .ok (weightD st.metric adj0 src l) := by
    intro l hl
    obtain ⟨w, hlw⟩ := hok l hl
    rw [weightD, hlw]
    exact hlw
  -- A link of the source.
  by_cases hus : u = src
  · subst hus
    rw [h.source, Option.some.injEq] at hu
    subst hu
    obtain ⟨r, hr, rfl⟩ := List.mem_map.mp hl
    refine ⟨fun _ => ?_, fun hno => absurd (.inl ⟨rfl, r, hr, rfl⟩) hno⟩
    rw [hq]
    exact hweight r hr
  · rcases h.cases hus with ⟨r, hr, rfl, heq⟩ | ⟨hgone, -, heq⟩ | ⟨hgone, -, heq⟩
    · rw [hu, Option.some.injEq] at heq
      subst heq
      simp only [attachedEntry, NDescr.mapLink, NDescr.links, raisedEntry,
        NDescr.linklist_updateNodeValidity] at hl
      obtain ⟨x, hx, rfl⟩ := List.mem_map.mp hl
      by_cases hxs : x.neighbor = src
      · -- the reverse link of a new link has got the weight of the new link
        rw [if_pos hxs]
        refine ⟨fun _ => ?_, fun hno => absurd (.inr ⟨hxs, r, hr, rfl⟩) hno⟩
        have hback : qualityAt adj0 r.neighbor src = some x.quality := by
          rw [← hxs]
          exact qualityAt_eq_some hasc0 (getElem?_of_mem_links hx) hx
        have hforth : qualityAt adj0 src r.neighbor = some r.quality :=
          qualityAt_eq_some hasc0 hsrc hr
        change linkWeight _ x.quality (qualityAt adj x.neighbor r.neighbor)
          = .ok (weightD st.metric adj0 src r)
        rw [hq, hxs, hforth, linkWeight_symm hm, ← hback]
        exact hweight r hr
      · -- Any other link of this neighbour is untouched.
        rw [if_neg hxs]
        exact ⟨fun ht => absurd ht (not_touches hus fun h => absurd h hxs),
          fun _ => ⟨hus, kept_of_entryOf hs hus hx⟩⟩
    · -- only the counterpart has changed
      rw [hu, Option.some.injEq] at heq
      subst heq
      refine ⟨fun ht => absurd ht (not_touches hus fun _ => hgone), fun _ => ⟨hus, ?_⟩⟩
      obtain ⟨x, hx, rfl⟩ := List.mem_map.mp hl
      obtain ⟨n, hn, r, hr, hshape, hw⟩ := kept_of_entryOf hs hus hx
      refine ⟨n, hn, r, hr, ?_, ?_⟩
      · rw [hshape]
        split <;> rfl
      · rw [hw]
        split <;> rfl
    · -- The entry has not changed at all.
      rw [hu] at heq
      refine ⟨fun ht => absurd ht (not_touches hus fun _ => hgone), fun _ => ⟨hus, ?_⟩⟩
      have hl' : l ∈ (entryOf st now adj0 u).links := by
        rw [entryOf_of_some heq.symm]
        exact hl
      exact kept_of_entryOf hs hus hl'

/-- The links whose reverse link is dropped by the merge. -/
def Orphaned (src : NodeId) (links old : List LinkQuality) (v x : NodeId) : Prop :=
  x = src ∧ v ≠ src ∧ (∃ l ∈ old, l.neighbor = v) ∧ ∀ l ∈ links, l.neighbor ≠ v

/-- Behind the merge the weights are right, except for the orphaned links. -/
theorem WeightsOk.merged (hm : SymmetricMetric st.metric) (hc : Consistent s.adjList)
    (hw : WeightsOk st.metric s.adjList fun _ _ => False) (hs : s.adjList[src]? = some ns)
    (hnew : AscendingLinks links)
    (h : Merged st now newValidity src (s.swapLinks src newValidity links).adjList
      (swappedEntry s newValidity links ns) ns.links name adj)
    (hok : ∀ l ∈ links, ∃ w, weightOf st.metric (s.swapLinks src newValidity links).adjList src l
      = .ok w) :
    WeightsOk st.metric adj (Orphaned src links ns.links) := by
  intro u nd hu l hl hskip
  obtain ⟨hright, hbefore⟩ := h.weight hm hc hs hnew hok hu hl
  -- The packet touches the link, or the link is one of before.
  by_cases ht : Touches src links u l.neighbor
  · exact hright ht
  · obtain ⟨hus, n, hn, r, hr, hshape, hmw⟩ := hbefore ht
    have hnb : r.neighbor = l.neighbor := congrArg Prod.fst hshape
    have hqr : r.quality = l.quality := congrArg Prod.snd hshape
    have hr := hw u n hn r hr not_false
    rw [hnb, hqr, hmw] at hr
    rw [h.qualityAt_eq hs hnew]
    by_cases hls : l.neighbor = src
    · -- there is no link back, neither before nor behind the merge
      have hgone : ∀ x ∈ links, x.neighbor ≠ u := fun x hx hxu => ht (.inr ⟨hls, x, hx, hxu⟩)
      have hold : ∀ x ∈ ns.links, x.neighbor ≠ u := fun x hx hxu =>
        hskip ⟨hls, hus, ⟨x, hx, hxu⟩, hgone⟩
      have h1 : qualityAt (s.swapLinks src newValidity links).adjList src u = none := by
        refine qualityAt_eq_none ?_
        rw [linksOf, swapLinks_lookup hs, if_pos rfl]
        exact hgone
      have h2 : qualityAt s.adjList src u = none := by
        refine qualityAt_eq_none ?_
        rw [linksOf_of_some hs]
        exact hold
      rw [hls, h2] at hr
      rw [hls, h1]
      exact hr
    · -- The other end is not the source, so its quality is the same.
      rw [qualityAt_swapLinks hs hls]
      exact hr

end

/-! ### The cleanup -/

section
variable {t : AbsTime} {adj adj' : AdjList}

/-- Behind a pass the weights are right, if the pass does not drop a link and keep its
reverse link, and if it drops all links in `skip`. -/
theorem WeightsOk.swept {m : Metric} {skip : NodeId → NodeId → Prop} (hc : Consistent adj)
    (h : Swept t adj adj') (hw : WeightsOk m adj skip)
    (hpair : ∀ u v, HasLink adj u v → HasLink adj v u → edgesExpired t adj v = true →
      edgesExpired t adj u = true)
    (hskip : ∀ u v, HasLink adj u v → skip u v → edgesExpired t adj u = true) :
    WeightsOk m adj' fun _ _ => False := by
  intro u nd' hu l hl _
  obtain ⟨nd, hnd, -, -, -, hlinks⟩ := h.links hu
  rw [hlinks] at hl
  split at hl
  · cases hl
  · rename_i hexp
    obtain ⟨r, hr, rfl⟩ := List.mem_map.mp hl
    have hshape := shape_survivingLink t adj r
    have hn : (survivingLink t adj r).neighbor = r.neighbor := congrArg Prod.fst hshape
    have hqr : (survivingLink t adj r).quality = r.quality := congrArg Prod.snd hshape
    have hmw : (survivingLink t adj r).metricWeight = r.metricWeight := by
      unfold survivingLink
      split <;> rfl
    have hunexp : ¬ edgesExpired t adj u = true := by
      simpa only [edgesExpired, hnd, decide_eq_true_eq] using hexp
    have hlink := hasLink_of_mem hc.ascending hnd hr
    have hbefore := hw u nd hnd r hr fun hsk => hunexp (hskip u _ hlink hsk)
    rw [hn, hqr, hmw, h.qualityAt_eq hc]
    -- The reverse link survives with this one, or there was none.
    by_cases hback : HasLink adj r.neighbor u
    · rw [if_neg fun hv => hunexp (hpair u _ hlink hback hv)]
      exact hbefore
    · have hnone : qualityAt adj r.neighbor u = none := by
        simpa [HasLink] using hback
      rw [hnone] at hbefore ⊢
      rwa [ite_self]

end

/-! ### Steps that drop a link and keep its reverse link -/

/-- The event runs the cleanup in the state `s`: the timer job always does, the others do
when the routes have to be computed. -/
def sweeps (s : RTopology) (e : Event) : Bool :=
  !s.locked && match e.op with
    | .feed p => s.dirty || hasNews s p
    | .cleanup | .reset _ => true
    | .getNextHop _ => s.dirty
    | .setLocked _ | .watch => false

/-- The links of `u` are dropped by the cleanup of the event. -/
def expires (s : RTopology) (e : Event) (u : NodeId) : Bool :=
  sweeps s e && edgesExpired e.now s.adjList u

/-- The link `u → v` is there behind the event, said in terms of the state in front of it. -/
def survives (s : RTopology) (e : Event) (u v : NodeId) : Bool :=
  match s.locked, e.op with
  | false, .feed p =>
    if u = SrcPacket.getSrc p then (packetLinks p).any fun l => decide (l.neighbor = v)
    else decide (HasLink s.adjList u v) && !expires s e u
  | _, _ => decide (HasLink s.adjList u v) && !expires s e u

/-- The event drops no link whose reverse link survives. -/
def KeepsReverse (s : RTopology) (e : Event) : Prop :=
  ∀ u v, HasLink s.adjList u v → survives s e u v = false → survives s e v u = false

/-- An event other than an unlocked `feed` keeps the links that do not expire. -/
theorem KeepsReverse.expired {s : RTopology} {e : Event} (h : KeepsReverse s e)
    (he : ∀ u v, survives s e u v = (decide (HasLink s.adjList u v) && !expires s e u))
    (hsweep : sweeps s e = true) {u v : NodeId} (huv : HasLink s.adjList u v)
    (hvu : HasLink s.adjList v u) (hv : edgesExpired e.now s.adjList v = true) :
    edgesExpired e.now s.adjList u = true := by
  have hdrop : survives s e v u = false := by
    simp [he, expires, hsweep, hv]
  have := h v u hvu hdrop
  simpa [he, huv, expires, hsweep] using this

/-! ### Every run -/

section
variable {st : Station} {now : AbsTime} {s s1 s' : RTopology} {skip : NodeId → NodeId → Prop}

/-- The cleanup keeps the weights when it drops a link together with its reverse link. Then no link
loses its partner, and `skip` has no link left. -/
theorem WeightsOk.removeOldNodes {m : Metric} {next : AbsTime} (hc : Consistent s.adjList)
    (hw : WeightsOk m s.adjList skip) (hlocked : s.locked = false)
    (hpair : ∀ u v, HasLink s.adjList u v → HasLink s.adjList v u →
      edgesExpired now s.adjList v = true → edgesExpired now s.adjList u = true)
    (hskip : ∀ u v, HasLink s.adjList u v → skip u v → edgesExpired now s.adjList u = true)
    (h : s.removeOldNodes now = .ok (s', next)) :
    WeightsOk m s'.adjList fun _ _ => False := by
  rcases removeOldNodes_cases hc h with ⟨hl, -⟩ | ⟨-, adj', hswept, rfl⟩
  · rw [hlocked] at hl
    cases hl
  · rw [sweptState_adjList]
    exact hw.swept hc hswept hpair hskip

/-- The same for a whole update of the topology: the computation of the routes does not touch the
weights. -/
theorem WeightsOk.updateTopology {m : Metric} (hc : Consistent s.adjList)
    (hw : WeightsOk m s.adjList skip) (hlocked : s.locked = false)
    (hpair : ∀ u v, HasLink s.adjList u v → HasLink s.adjList v u →
      edgesExpired now s.adjList v = true → edgesExpired now s.adjList u = true)
    (hskip : ∀ u v, HasLink s.adjList u v → skip u v → edgesExpired now s.adjList u = true)
    (h : s.updateTopology st now = .ok s') :
    WeightsOk m s'.adjList fun _ _ => False := by
  obtain ⟨⟨s1, next⟩, h1, h⟩ := bind_eq_ok.mp h
  obtain ⟨adj, h2, h⟩ := bind_eq_ok.mp h
  cases h
  exact (hw.removeOldNodes hc hlocked hpair hskip h1).congr (calcRoutes_sameGraph h2).linksOf

/-- A locked topology only computes its routes. -/
theorem WeightsOk.updateTopology_locked {m : Metric} (hc : Consistent s.adjList)
    (hw : WeightsOk m s.adjList skip) (hlocked : s.locked = true)
    (h : s.updateTopology st now = .ok s') : WeightsOk m s'.adjList skip := by
  obtain ⟨⟨s1, next⟩, h1, h⟩ := bind_eq_ok.mp h
  obtain ⟨adj, h2, h⟩ := bind_eq_ok.mp h
  cases h
  rcases removeOldNodes_cases hc h1 with ⟨-, rfl⟩ | ⟨hl, -⟩
  · exact hw.congr (calcRoutes_sameGraph h2).linksOf
  · rw [hlocked] at hl
    cases hl

/-- The links of the source behind a `feed` are those of the packet. -/
theorem survives_feed_source {p : BasePacket} (hlocked : s.locked = false) (v : NodeId) :
    survives s ⟨now, .feed p⟩ (SrcPacket.getSrc p) v
      = (packetLinks p).any fun l => decide (l.neighbor = v) := by
  simp [survives, hlocked]

/-- The links of the other nodes survive a `feed` unless they expire. -/
theorem survives_feed_other {p : BasePacket} (hlocked : s.locked = false) {u : NodeId}
    (hu : u ≠ SrcPacket.getSrc p) (v : NodeId) :
    survives s ⟨now, .feed p⟩ u v
      = (decide (HasLink s.adjList u v) && !expires s ⟨now, .feed p⟩ u) := by
  simp [survives, hlocked, hu]

/-- A link that expires in a `feed` is dropped by the cleanup behind the merge. -/
theorem Fed.expires_iff {p : BasePacket} {ns : NDescr} (hlocked : s.locked = false)
    (hf : Fed st now s p ns s1) {u : NodeId} (hu : u ≠ SrcPacket.getSrc p) :
    expires s ⟨now, .feed p⟩ u = true ↔
      s1.dirty = true ∧ edgesExpired now s1.adjList u = true := by
  have hsweeps : sweeps s ⟨now, .feed p⟩ = s1.dirty := by
    simp [sweeps, hlocked, hf.dirty]
  rw [expires, Bool.and_eq_true, hsweeps, hf.edgesExpired_eq, if_neg hu]

/-- An orphaned link expires, and so the cleanup runs. -/
theorem Fed.orphan_expires {p : BasePacket} {ns : NDescr} (hc : Consistent s.adjList)
    (hlocked : s.locked = false) (hf : Fed st now s p ns s1)
    (hk : KeepsReverse s ⟨now, .feed p⟩) {u v : NodeId} (huv : HasLink s1.adjList u v)
    (horphan : Orphaned (SrcPacket.getSrc p) (packetLinks p) ns.links u v) :
    s1.dirty = true ∧ edgesExpired now s1.adjList u = true := by
  obtain ⟨rfl, hu, ⟨l, hl, rfl⟩, hgone⟩ := horphan
  have hc0 := hc.getNodeEntry st now (SrcPacket.getSrc p)
  have hbefore : HasLink s.adjList (SrcPacket.getSrc p) l.neighbor := by
    have hlink := hasLink_of_mem hc0.ascending hf.lookup hl
    have hq : qualityAt (s.getNodeEntry st now (SrcPacket.getSrc p)).adjList
        (SrcPacket.getSrc p) l.neighbor = qualityAt s.adjList (SrcPacket.getSrc p) l.neighbor :=
      qualityAt_congr (by rw [linksOf_getNodeEntry]) _
    rwa [HasLink, hq] at hlink
  have hdrop : survives s ⟨now, .feed p⟩ (SrcPacket.getSrc p) l.neighbor = false := by
    rw [survives_feed_source hlocked]
    simpa using hgone
  have hback := hk _ _ hbefore hdrop
  rw [survives_feed_other hlocked hu, decide_eq_true ((hf.hasLink_of_ne hu _).mp huv)] at hback
  exact (hf.expires_iff hlocked hu).mp (by simpa using hback)

/-- In the cleanup behind the merge a link expires together with its reverse link. -/
theorem Fed.expires_pair {p : BasePacket} {ns : NDescr} (hlocked : s.locked = false)
    (hf : Fed st now s p ns s1) (hk : KeepsReverse s ⟨now, .feed p⟩) (hdirty : s1.dirty = true)
    {u v : NodeId} (huv : HasLink s1.adjList u v) (hvu : HasLink s1.adjList v u)
    (hv : edgesExpired now s1.adjList v = true) : edgesExpired now s1.adjList u = true := by
  -- The links of the source are new, so `v` is another node.
  have hvs : v ≠ SrcPacket.getSrc p := by
    intro hvs
    rw [hf.edgesExpired_eq, if_pos hvs] at hv
    cases hv
  have hdrop : survives s ⟨now, .feed p⟩ v u = false := by
    rw [survives_feed_other hlocked hvs, (hf.expires_iff hlocked hvs).mpr ⟨hdirty, hv⟩]
    simp
  have hu := hk v u ((hf.hasLink_of_ne hvs u).mp hvu) hdrop
  by_cases hus : u = SrcPacket.getSrc p
  · rw [hus] at huv
    obtain ⟨l, hl, hlv⟩ := hf.hasLink_source huv
    rw [hus, survives_feed_source hlocked] at hu
    simp only [List.any_eq_false, decide_eq_true_eq] at hu
    exact absurd hlv (hu l hl)
  · rw [survives_feed_other hlocked hus,
      decide_eq_true ((hf.hasLink_of_ne hus _).mp huv)] at hu
    exact ((hf.expires_iff hlocked hus).mp (by simpa using hu)).2

/-- A `feed` that drops no link whose reverse link survives keeps the weights right. -/
theorem WeightsOk.feed {p : BasePacket} (hm : SymmetricMetric st.metric)
    (hc : Consistent s.adjList) (hw : WeightsOk st.metric s.adjList fun _ _ => False)
    (hp : SizeOk p) (hlocked : s.locked = false) (hk : KeepsReverse s ⟨now, .feed p⟩)
    (h : s.feed st now p = .ok s') : WeightsOk st.metric s'.adjList fun _ _ => False := by
  obtain ⟨ns, s1, hf, h⟩ := Fed.of_feed hc hp hlocked h
  have hw0 : WeightsOk st.metric (s.getNodeEntry st now (SrcPacket.getSrc p)).adjList
      fun _ _ => False :=
    hw.congr (linksOf_getNodeEntry st now s _)
  have hw1 := hw0.merged hm (hc.getNodeEntry st now _) hf.lookup hf.ascending hf.merged hf.weights
  by_cases hdirty : s1.dirty = true
  · rw [if_pos hdirty] at h
    refine hw1.updateTopology (hf.consistent hc) (hf.locked.trans hlocked) ?_ ?_ h
    · exact fun u v huv hvu hv => hf.expires_pair hlocked hk hdirty huv hvu hv
    · exact fun u v huv hskip => (hf.orphan_expires hc hlocked hk huv hskip).2
  · -- No cleanup runs, so there is no orphaned link.
    rw [if_neg hdirty] at h
    cases h
    intro u nd hu l hl _
    refine hw1 u nd hu l hl fun hskip => hdirty ?_
    have huv := hasLink_of_mem (hf.consistent hc).ascending hu hl
    exact (hf.orphan_expires hc hlocked hk huv hskip).1

end

/-- An event that drops no link whose reverse link survives keeps the weights right. -/
theorem WeightsOk.exec {st : Station} {e : Event} {s s' : RTopology}
    (hm : SymmetricMetric st.metric) (hc : Consistent s.adjList)
    (hw : WeightsOk st.metric s.adjList fun _ _ => False) (he : FeedsSized e) (hr : NoReset e)
    (hk : KeepsReverse s e) (h : s.exec st e = .ok s') :
    WeightsOk st.metric s'.adjList fun _ _ => False := by
  obtain ⟨now, op⟩ := e
  -- One case for each event; a feed and a cleanup may write weights.
  cases op with
  | feed p =>
    cases hlocked : s.locked with
    -- A locked topology takes no packet.
    | true =>
      rcases feed_cases (he p rfl) h with ⟨-, rfl⟩ | ⟨hl, -⟩
      · exact hw
      · rw [hlocked] at hl
        cases hl
    | false => exact hw.feed hm hc (he p rfl) hlocked hk h
  -- The cleanup drops a link together with the one back.
  | cleanup =>
    obtain ⟨⟨s1, next⟩, h1, h⟩ := bind_eq_ok.mp h
    cases h
    cases hlocked : s.locked with
    | true =>
      rcases removeOldNodes_cases hc h1 with ⟨-, rfl⟩ | ⟨hl, -⟩
      · exact hw
      · rw [hlocked] at hl
        cases hl
    | false =>
      have hsweeps : sweeps s ⟨now, .cleanup⟩ = true := by simp [sweeps, hlocked]
      exact hw.removeOldNodes hc hlocked
        (fun u v huv hvu => hk.expired (by simp [survives]) hsweeps huv hvu)
        (fun _ _ _ hf => hf.elim) h1
  | reset t => exact absurd rfl (hr t)
  | setLocked b =>
    cases h
    exact hw
  -- A question for a route cleans up first if the topology is dirty.
  | getNextHop dest =>
    obtain ⟨⟨s1, r⟩, h1, h⟩ := bind_eq_ok.mp h
    cases h
    rcases (getNextHop_spec h1).2 with ⟨hdirty, h2⟩ | ⟨-, rfl⟩
    · cases hlocked : s.locked with
      | true => exact hw.updateTopology_locked hc hlocked h2
      | false =>
        have hsweeps : sweeps s ⟨now, .getNextHop dest⟩ = true := by
          simp [sweeps, hlocked, hdirty]
        exact hw.updateTopology hc hlocked
          (fun u v huv hvu => hk.expired (by simp [survives]) hsweeps huv hvu)
          (fun _ _ _ hf => hf.elim) h2
    · exact hw
  -- An observer changes no link.
  | watch =>
    cases h
    exact hw

/-- The weight of a link is the metric of the two qualities, cut off at the ceiling, where
there is a reverse link, and the ceiling where there is none. -/
def WeightsFollow (m : Metric) (adj : AdjList) : Prop :=
  ∀ (u : NodeId) (nd : NDescr), adj[u]? = some nd → ∀ l ∈ nd.links,
    (∀ r ∈ adj.linksOf l.neighbor, r.neighbor = u →
      ∃ mw, m.myCalculate l.quality r.quality = .ok mw ∧
        l.metricWeight = min mw Metric.ceiling) ∧
    ((∀ r ∈ adj.linksOf l.neighbor, r.neighbor ≠ u) → l.metricWeight = Metric.ceiling)

/-- The invariant without exceptions says what the weights are: the metric of both qualities, cut
off at the ceiling, or the ceiling itself. -/
theorem WeightsOk.follow {m : Metric} {adj : AdjList} (hasc : AllAscending adj)
    (h : WeightsOk m adj fun _ _ => False) : WeightsFollow m adj := by
  intro u nd hu l hl
  have hw := h u nd hu l hl not_false
  refine ⟨fun r hr hru => ?_, fun hno => ?_⟩
  · obtain ⟨n, hn, hr⟩ := getElem?_of_mem_linksOf hr
    have hq := qualityAt_eq_some hasc hn hr
    rw [hru] at hq
    rw [hq, linkWeight, bind_eq_ok] at hw
    obtain ⟨mw, hmw, hw⟩ := hw
    exact ⟨mw, hmw, (Except.ok.inj hw).symm⟩
  · rw [qualityAt_eq_none hno, linkWeight] at hw
    exact (Except.ok.inj hw).symm

/-- In every state of every run whose steps drop no link and keep its reverse link, the
weights follow the qualities. -/
theorem weights_follow {st : Station} (hm : SymmetricMetric.installed st.metric)
    {s : RTopology}
    (h : Reachable st (fun s e => FeedsSized e ∧ NoReset e ∧ KeepsReverse s e) s) :
    WeightsFollow st.metric s.adjList := by
  have hinv : Consistent s.adjList ∧ WeightsOk st.metric s.adjList fun _ _ => False := by
    refine h.invariant (P := fun s => Consistent s.adjList ∧
      WeightsOk st.metric s.adjList fun _ _ => False) ?_ ?_
    · intro t
      refine ⟨consistent_init st t, ?_⟩
      intro u nd hu l hl
      rw [init, getElem?_insertAt] at hu
      split at hu
      · cases hu
        cases hl
      · simp at hu
    · rintro s e s' ⟨hc, hw⟩ ⟨he, hr, hk⟩ hrun
      exact ⟨hc.exec he hrun, hw.exec (symmetric_of_installed hm) hc he hr hk hrun⟩
  exact hinv.2.follow hinv.1.ascending

/-- A test for `KeepsReverse`. -/
def keepsReverseTest (s : RTopology) (e : Event) : Bool :=
  s.adjList.toList.all fun x => x.2.links.all fun l =>
    survives s e x.1 l.neighbor || !survives s e l.neighbor x.1

/-- The test looks at every link of the map. -/
theorem keepsReverse_of_test {s : RTopology} {e : Event} (h : keepsReverseTest s e = true) :
    KeepsReverse s e := by
  intro u v huv hdrop
  obtain ⟨nd, hnd, l, hl, rfl⟩ := huv.exists_mem
  have hmem := ExtTreeMap.mem_toList_iff_getElem?_eq_some.mpr hnd
  have := List.all_eq_true.mp (List.all_eq_true.mp h _ hmem) l hl
  simpa [hdrop] using this

/-- A packet is no reset. -/
theorem noReset_of_feed {now : AbsTime} {p : BasePacket} : NoReset ⟨now, .feed p⟩ :=
  fun _ ht => by cases ht

/-- The link 1 → 2 of the run has the weight 1 of the hop count. -/
theorem weights_follow_mutualRun :
    ∃ s nd l, Reachable (.hopCount 1)
        (fun s e => FeedsSized e ∧ NoReset e ∧ KeepsReverse s e) s ∧
      s.adjList[(1 : NodeId)]? = some nd ∧ l ∈ nd.links ∧ l.neighbor = 2 ∧
      l.metricWeight = 1 := by
  obtain ⟨s, hs, htest⟩ := exists_of_test
    (mutualRun.foldlM (execIf (.hopCount 1) keepsReverseTest) (init (.hopCount 1) 0))
    (fun s => (s.adjList.linksOf 1).any (fun l => decide (l.neighbor = 2)) &&
      (s.adjList.linksOf 2).any fun r => decide (r.neighbor = 1)) (by decide +kernel)
  have hreach : Reachable (.hopCount 1)
      (fun s e => FeedsSized e ∧ NoReset e ∧ KeepsReverse s e) s := by
    refine ⟨0, steps_of_execIf mutualRun _ s (fun e he s hk => ?_) hs⟩
    refine ⟨feedsSized_mutualRun e he, ?_, keepsReverse_of_test hk⟩
    simp only [mutualRun, List.mem_cons, List.not_mem_nil, or_false] at he
    rcases he with rfl | rfl <;> exact noReset_of_feed
  simp only [Bool.and_eq_true, List.any_eq_true, decide_eq_true_eq] at htest
  obtain ⟨⟨l, hl, hl2⟩, r, hr, hr1⟩ := htest
  obtain ⟨nd, hnd, hl⟩ := getElem?_of_mem_linksOf hl
  obtain ⟨mw, hmw, hw⟩ := (weights_follow (.inl rfl) hreach 1 nd hnd l hl).1 r
    (by rw [hl2]; exact hr) hr1
  cases hmw
  exact ⟨s, nd, l, hreach, hnd, hl, hl2, hw⟩

/-- Station 1 drops its link to station 2, which has not heard of it yet. -/
def orphanRun : List Event := mutualRun ++ [⟨0, .feed (topoOf 1 9000 [])⟩]

/-- Whether an event feeds a packet with the right size. -/
def feedsSize (_ : RTopology) (e : Event) : Bool :=
  match e.op with
  | .feed p => decide (SizeOk p)
  | _ => false

/-- The link 2 → 1 keeps the weight 1 although the link 1 → 2 is gone. -/
theorem weights_stale_orphanRun :
    ¬ ∀ s, Reachable (.hopCount 1) (fun _ e => FeedsSized e ∧ NoReset e) s →
      WeightsFollow .hopCount s.adjList := by
  intro hall
  obtain ⟨s, hs, htest⟩ := exists_of_test
    (orphanRun.foldlM (execIf (.hopCount 1) feedsSize) (init (.hopCount 1) 0))
    (fun s => (s.adjList.linksOf 1).isEmpty && (s.adjList.linksOf 2).any fun l =>
      decide (l.neighbor = 1 ∧ l.metricWeight ≠ Metric.ceiling)) (by decide +kernel)
  have hreach : Reachable (.hopCount 1) (fun _ e => FeedsSized e ∧ NoReset e) s := by
    refine ⟨0, steps_of_execIf orphanRun _ s (fun e _ s htest => ?_) hs⟩
    obtain ⟨now, op⟩ := e
    cases op with
    | feed p =>
      refine ⟨fun q hq => ?_, noReset_of_feed⟩
      cases hq
      simpa [feedsSize] using htest
    | _ => simp [feedsSize] at htest
  simp only [Bool.and_eq_true, List.isEmpty_iff, List.any_eq_true, decide_eq_true_eq] at htest
  obtain ⟨hempty, l, hl, hl1, hw⟩ := htest
  obtain ⟨nd, hnd, hl⟩ := getElem?_of_mem_linksOf hl
  refine hw ((hall s hreach 2 nd hnd l hl).2 ?_)
  rw [hl1, hempty]
  simp

end Awds.Proofs
