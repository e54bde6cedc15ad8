import Awds.Proofs.Topology.Staleness

/-!
# `Awds.Proofs.Topology.Commute`: the order of two packets

Two packets of different sources are fed at the same instant, in both orders. `Applied` is
the effect of one `feed` on a topology in which nothing has expired, without the merge: the
nodes, the links, the weights and the routes.

The link lists do not depend on the order. A weight is computed from the two qualities that
are stored when one of the packets touches the link, and it is right behind the second
packet, unless the second packet drops the reverse link (`Crosses`). So the graphs are the
same exactly when neither packet drops a link whose reverse link is in the other one.

The distances also need that a packet that does not raise `dirty` changes nothing that they
depend on (`SettledBy`).
-/

set_option autoImplicit false

namespace Awds.Proofs

open Std (ExtTreeMap)
open Awds.Lib Awds.AdjList Awds.RTopology

/-! ### The effect of one packet -/

/-- The packet lists the neighbour `v`. -/
def Lists (p : BasePacket) (v : NodeId) : Prop := ∃ l ∈ packetLinks p, l.neighbor = v

section
variable {st : Station} {now newValidity : AbsTime} {src : NodeId} {s : RTopology}
  {adj : AdjList} {ns : NDescr} {links : List LinkQuality} {name : List UInt8}

/-- The nodes behind the merge: those in front of it, the neighbours of the packet, and the
neighbours that the source had. -/
theorem Merged.mem_iff (hs : s.adjList[src]? = some ns)
    (h : Merged st now newValidity src (s.swapLinks src newValidity links).adjList
      (swappedEntry s newValidity links ns) ns.links name adj) (u : NodeId) :
    u ∈ adj ↔ u ∈ s.adjList ∨ (∃ l ∈ links, l.neighbor = u) ∨ ∃ l ∈ ns.links, l.neighbor = u := by
  by_cases hu : u = src
  · subst hu
    have h1 : u ∈ adj := (mem_iff_getElem? _ _).mpr ⟨_, h.source⟩
    have h2 : u ∈ s.adjList := (mem_iff_getElem? _ _).mpr ⟨_, hs⟩
    simp [h1, h2]
  · rcases h.cases hu with ⟨l, hl, hlu, heq⟩ | ⟨-, hold, heq⟩ | ⟨hgone, hold, heq⟩
    · have h1 : u ∈ adj := (mem_iff_getElem? _ _).mpr ⟨_, heq⟩
      exact ⟨fun _ => .inr (.inl ⟨l, hl, hlu⟩), fun _ => h1⟩
    · have h1 : u ∈ adj := (mem_iff_getElem? _ _).mpr ⟨_, heq⟩
      exact ⟨fun _ => .inr (.inr hold), fun _ => h1⟩
    · rw [mem_iff_getElem?, heq, swapLinks_lookup hs, if_neg hu, ← mem_iff_getElem?]
      refine ⟨.inl, fun h => ?_⟩
      rcases h with h | ⟨l, hl, hlu⟩ | ⟨l, hl, hlu⟩
      · exact h
      · exact absurd hlu (hgone l hl)
      · exact absurd hlu (hold l hl)

/-- The distances and the validities behind the merge. -/
theorem Merged.entry (hs : s.adjList[src]? = some ns) (hnew : AscendingLinks links)
    (h : Merged st now newValidity src (s.swapLinks src newValidity links).adjList
      (swappedEntry s newValidity links ns) ns.links name adj) {u : NodeId} {nd : NDescr}
    (hu : adj[u]? = some nd) :
    nd.distance = (entryOf st now s.adjList u).distance ∧
      nd.edgeValidity = (if u = src then newValidity
        else (entryOf st now s.adjList u).edgeValidity) ∧
      (entryOf st now s.adjList u).nodeValidity ≤ nd.nodeValidity := by
  have hsrc : (s.swapLinks src newValidity links).adjList[src]?
      = some (swappedEntry s newValidity links ns) := by
    rw [swapLinks_lookup hs, if_pos rfl]
  by_cases hus : u = src
  · subst hus
    rw [h.source, Option.some.injEq] at hu
    subst hu
    rw [entryOf_of_some hs, if_pos rfl]
    simp only [NDescr.mapLinks, swappedEntry, NDescr.updateNodeValidity_eq]
    exact ⟨trivial, trivial, le_max_left _ _⟩
  · obtain ⟨f, ht, -⟩ := h.touched hsrc hnew hus hu
    rw [entryOf_swapLinks hs hus] at ht
    rw [if_neg hus]
    -- `Touched` does not speak of the distance, which no turn of the merge changes.
    refine ⟨?_, ht.edgeValidity, ht.nodeValidity⟩
    have hent : entryOf st now (s.swapLinks src newValidity links).adjList u
        = entryOf st now s.adjList u := entryOf_swapLinks hs hus
    rw [← hent]
    rcases h.cases hus with ⟨l, -, rfl, heq⟩ | ⟨-, -, heq⟩ | ⟨-, -, heq⟩
    · rw [hu, Option.some.injEq] at heq
      subst heq
      simp only [attachedEntry, NDescr.mapLink, raisedEntry, NDescr.updateNodeValidity_eq]
    · rw [hu, Option.some.injEq] at heq
      subst heq
      rfl
    · rw [hu] at heq
      rw [entryOf_of_some heq.symm]

end

/-- The map `adj'` is that of an unlocked `feed` of `p` in a state `s` in which nothing has
expired, without its routes. -/
structure AppliedGraph (m : Metric) (now : AbsTime) (s : RTopology) (p : BasePacket)
    (adj' : AdjList) : Prop where
  consistent : Consistent adj'
  unexpired : Unexpired now adj'
  mem_iff : ∀ u, u ∈ adj' ↔ u ∈ s.adjList ∨ u = SrcPacket.getSrc p ∨ Lists p u ∨
    HasLink s.adjList (SrcPacket.getSrc p) u
  shape_source : (adj'.linksOf (SrcPacket.getSrc p)).map shape = (packetLinks p).map shape
  shape_of_ne : ∀ u, u ≠ SrcPacket.getSrc p →
    (adj'.linksOf u).map shape = (s.adjList.linksOf u).map shape
  touched : ∀ u, ∀ l ∈ adj'.linksOf u,
    Touches (SrcPacket.getSrc p) (packetLinks p) u l.neighbor →
      linkWeight m l.quality (qualityAt adj' l.neighbor u) = .ok l.metricWeight
  untouched : ∀ u, ∀ l ∈ adj'.linksOf u,
    ¬ Touches (SrcPacket.getSrc p) (packetLinks p) u l.neighbor →
      ∃ r ∈ s.adjList.linksOf u, shape r = shape l ∧ r.metricWeight = l.metricWeight

/-- The state `s'` is that of such a `feed`. -/
structure Applied (st : Station) (now : AbsTime) (s : RTopology) (p : BasePacket)
    (s' : RTopology) : Prop where
  graph : AppliedGraph st.metric now s p s'.adjList
  locked : s'.locked = false
  dirty : s'.dirty = false
  fresh : s.dirty = true ∨ hasNews s p = true → Fresh st s'.adjList
  settled : s.dirty = false → hasNews s p = false →
    Settled st.metric s.adjList (SrcPacket.getSrc p) → SameRouting s.adjList s'.adjList
  quiet : s.dirty = false → hasNews s p = false → ∀ (u : NodeId) (nd : NDescr),
    s'.adjList[u]? = some nd → nd.distance = (entryOf st now s.adjList u).distance

section
variable {st : Station} {now : AbsTime} {s s1 s' : RTopology} {p : BasePacket} {ns : NDescr}

/-- Where nothing has expired, the entry of a node is valid: it is one of the map, or a new one. -/
theorem Unexpired.entryOf {adj : AdjList} (h : Unexpired now adj) (st : Station) (u : NodeId) :
    now < (entryOf st now adj u).edgeValidity ∧ now < (entryOf st now adj u).nodeValidity := by
  unfold Awds.Proofs.entryOf
  cases hu : adj[u]? with
  | none => simp
  | some nd => exact h u nd hu

/-- Expiry does not depend on the labels of the routes. -/
theorem Unexpired.of_sameGraph {adj adj' : AdjList} (h : Unexpired now adj)
    (hs : SameGraph adj adj') : Unexpired now adj' := by
  intro u nd hu
  obtain ⟨n, hn, -, hedge, hnode⟩ := hs.entry hu
  rw [← hedge, ← hnode]
  exact h u n hn

/-- The entry of a node is the same with and without the entry of the source. -/
theorem entryOf_getNodeEntry (st : Station) (now : AbsTime) (s : RTopology) (id u : NodeId) :
    entryOf st now (s.getNodeEntry st now id).adjList u = entryOf st now s.adjList u := by
  rw [getNodeEntry_adjList]
  by_cases hu : id = u
  · subst hu
    rw [entryOf_of_some (by rw [getElem?_insertAt, if_pos rfl])]
  · exact entryOf_congr (by rw [getElem?_insertAt, if_neg hu]) st now

/-- The effect of a packet on the graph does not depend on these labels either. -/
theorem AppliedGraph.of_sameGraph {m : Metric} {adj adj' : AdjList}
    (h : AppliedGraph m now s p adj) (hs : SameGraph adj adj') :
    AppliedGraph m now s p adj' where
  consistent := h.consistent.of_sameGraph hs
  unexpired := h.unexpired.of_sameGraph hs
  mem_iff := fun u => (hs.mem_iff u).trans (h.mem_iff u)
  shape_source := by rw [hs.linksOf, h.shape_source]
  shape_of_ne := fun u hu => by rw [hs.linksOf, h.shape_of_ne u hu]
  touched := by
    intro u l hl ht
    rw [hs.linksOf] at hl
    have hq : qualityAt adj' l.neighbor u = qualityAt adj l.neighbor u :=
      qualityAt_congr (by rw [hs.linksOf]) u
    rw [hq]
    exact h.touched u l hl ht
  untouched := by
    intro u l hl
    rw [hs.linksOf] at hl
    exact h.untouched u l hl

/-- A packet with a positive validity leaves nothing expired. -/
theorem Fed.unexpired (hf : Fed st now s p ns s1) (hu : Unexpired now s.adjList) :
    Unexpired now s1.adjList := by
  intro u nd hnd
  obtain ⟨-, hedge, hnode⟩ := hf.merged.entry hf.lookup hf.ascending hnd
  rw [entryOf_getNodeEntry] at hedge hnode
  obtain ⟨h1, h2⟩ := hu.entryOf st u
  refine ⟨?_, h2.trans_le hnode⟩
  rw [hedge]
  split
  · exact lt_add_of_pos_right now hf.valid
  · exact h1

/-- The graph behind the merge, from the merge's own specification: with nothing expired the cleanup
changes nothing. -/
theorem Fed.graph (hf : Fed st now s p ns s1) (hm : SymmetricMetric st.metric)
    (hc : Consistent s.adjList) (hu : Unexpired now s.adjList) :
    AppliedGraph st.metric now s p s1.adjList := by
  have hc0 := hc.getNodeEntry st now (SrcPacket.getSrc p)
  have hlinks := linksOf_getNodeEntry st now s (SrcPacket.getSrc p)
  have hweight := fun {u nd} (hu : s1.adjList[u]? = some nd) {l} (hl : l ∈ nd.links) =>
    hf.merged.weight hm hc0 hf.lookup hf.ascending hf.weights hu hl
  have hns : ns.links = s.adjList.linksOf (SrcPacket.getSrc p) := by
    rw [← hlinks, linksOf_of_some hf.lookup]
  refine ⟨hf.consistent hc, hf.unexpired hu, ?_, hf.shape_source, fun u h => hf.shape_of_ne h,
    ?_, ?_⟩
  · -- The nodes are the source, the listed ones and those that were there.
    intro u
    have hold : HasLink s.adjList (SrcPacket.getSrc p) u ↔ ∃ l ∈ ns.links, l.neighbor = u := by
      rw [hns, hasLink_iff hc.ascending]
    rw [hf.merged.mem_iff hf.lookup, hold, getNodeEntry_adjList, ExtTreeMap.mem_insert,
      compare_eq_iff_eq, eq_comm (a := SrcPacket.getSrc p), Lists, or_assoc, or_left_comm]
  · -- A weight in the graph is one that the metric allows.
    intro u l hl
    obtain ⟨nd, hnd, hl⟩ := getElem?_of_mem_linksOf hl
    exact (hweight hnd hl).1
  · -- A link that the packet touches has the weight of its quality.
    intro u l hl ht
    obtain ⟨nd, hnd, hl⟩ := getElem?_of_mem_linksOf hl
    obtain ⟨-, n, hn, r, hr, h⟩ := (hweight hnd hl).2 ht
    refine ⟨r, ?_, h⟩
    rw [← hlinks, linksOf_of_some hn]
    exact hr

/-- The effect of one `feed`. -/
theorem Applied.of_feed (hm : SymmetricMetric st.metric) (hc : Consistent s.adjList)
    (hu : Unexpired now s.adjList) (hlocked : s.locked = false) (hp : SizeOk p)
    (h : s.feed st now p = .ok s') : Applied st now s p s' := by
  obtain ⟨ns, s1, hf, h⟩ := Fed.of_feed hc hp hlocked h
  have hgraph := hf.graph hm hc hu
  by_cases hdirty : s1.dirty = true
  · have hraised : ¬ (s.dirty = false ∧ hasNews s p = false) := by
      rintro ⟨h1, h2⟩
      rw [hf.dirty, h1, h2] at hdirty
      cases hdirty
    rw [if_pos hdirty] at h
    have hfresh := updateTopology_fresh h
    -- nothing has expired, so the cleanup changes nothing
    obtain ⟨⟨s2, next⟩, h2, h⟩ := bind_eq_ok.mp h
    obtain ⟨adj, h3, h⟩ := bind_eq_ok.mp h
    cases h
    have hs2 : s2 = s1 := by
      have hmem : SrcPacket.getSrc p ∈ s1.adjList := (hgraph.mem_iff _).mpr (.inr (.inl rfl))
      obtain ⟨next', h'⟩ := removeOldNodes_of_unexpired (isEmpty_of_mem hmem) hgraph.unexpired
      rw [h'] at h2
      cases h2
      rfl
    subst hs2
    exact ⟨hgraph.of_sameGraph (calcRoutes_sameGraph h3), hf.locked.trans hlocked, rfl,
      fun _ => hfresh, fun h1 h2 => absurd ⟨h1, h2⟩ hraised,
      fun h1 h2 => absurd ⟨h1, h2⟩ hraised⟩
  · rw [if_neg hdirty] at h
    cases h
    have hdirty := Bool.eq_false_iff.mpr hdirty
    obtain ⟨hclean, hnews⟩ := Bool.or_eq_false_iff.mp (hf.dirty.symm.trans hdirty)
    refine ⟨hgraph, hf.locked.trans hlocked, hdirty, ?_,
      fun _ _ hset => hf.sameRouting hnews hset, fun _ _ u nd hnd => ?_⟩
    · rintro (h | h)
      · rw [hclean] at h
        cases h
      · rw [hnews] at h
        cases h
    · rw [← entryOf_getNodeEntry st now s (SrcPacket.getSrc p)]
      exact (hf.merged.entry hf.lookup hf.ascending hnd).1

end

/-! ### The same graph -/

/-- The place of the reverse link that a link is connected with: its owner and its index. -/
def reverseOf (adj : AdjList) (l : LinkQuality) : Option (NodeId × Nat) :=
  l.counterpart.bind fun q => (adj.link? q).map fun _ => (q.owner, q.idx)

/-- The same nodes, links, qualities, weights and counterparts. -/
structure SameTopology (adj adj' : AdjList) : Prop where
  nodes : ∀ u, u ∈ adj ↔ u ∈ adj'
  links : ∀ u, (adj.linksOf u).map (fun l => (l.neighbor, l.quality, l.metricWeight))
    = (adj'.linksOf u).map fun l => (l.neighbor, l.quality, l.metricWeight)
  counterparts : ∀ u, (adj.linksOf u).map (reverseOf adj) = (adj'.linksOf u).map (reverseOf adj')

section
variable {adj adj' : AdjList}

/-- The index of a neighbour in a list of neighbours and qualities. -/
def indexIn (shapes : List (NodeId × UInt16)) (id : NodeId) : Option Nat :=
  let i := shapes.findIdx fun x => !decide (x.1 < id)
  match shapes[i]? with
  | none => none
  | some x => if x.1 = id then some i else none

/-- The index that `findLinkQuality` finds depends on the neighbours in the vector only. -/
theorem findLink_eq_indexIn (adj : AdjList) (v id : NodeId) :
    (adj.findLink v id).map (fun q => (q.owner, q.idx))
      = (indexIn ((adj.linksOf v).map shape) id).map fun i => (v, i) := by
  unfold findLink linksOf
  cases hv : adj[v]? with
  | none => rfl
  | some nd =>
    have hidx : nd.findLinkQuality id = indexIn (nd.links.map shape) id := by
      unfold NDescr.findLinkQuality indexIn
      rw [List.findIdx_map]
      simp only [List.getElem?_map]
      rw [show nd.links.findIdx ((fun x => !decide (x.1 < id)) ∘ shape)
        = nd.links.findIdx (fun l => !decide (l.neighbor < id)) from rfl]
      cases nd.links[nd.links.findIdx fun l => !decide (l.neighbor < id)]? with
      | none => rfl
      | some l => rfl
    simp only [hidx, Option.map_map]
    rfl

/-- The counterpart of a link is determined by the neighbours that are stored. -/
theorem Consistent.reverseOf_eq (h : Consistent adj) {u : NodeId} {l : LinkQuality}
    (hl : l ∈ adj.linksOf u) :
    reverseOf adj l
      = (indexIn ((adj.linksOf l.neighbor).map shape) u).map fun i => (l.neighbor, i) := by
  obtain ⟨nd, hu, hl⟩ := getElem?_of_mem_linksOf hl
  rw [← findLink_eq_indexIn, reverseOf, h.counterpart u nd hu l hl]
  cases hf : adj.findLink l.neighbor u with
  | none => rfl
  | some q =>
    obtain ⟨n, r, hn, hr, -, hq⟩ := findLink_eq_some h.ascending hf
    have hlink : adj.link? q = some r := by
      rw [hq]
      exact link?_eq_some_iff.mpr ⟨n, hn, rfl, hr⟩
    simp [hlink]

/-- Consistent maps with the same nodes, links and weights have the same counterparts, since these
are determined by the links. -/
theorem sameTopology_of_weights (hc : Consistent adj) (hc' : Consistent adj')
    (hnodes : ∀ u, u ∈ adj ↔ u ∈ adj')
    (hshape : ∀ u, (adj.linksOf u).map shape = (adj'.linksOf u).map shape)
    (hweight : ∀ u, ∀ l ∈ adj.linksOf u, ∀ r ∈ adj'.linksOf u, shape l = shape r →
      l.metricWeight = r.metricWeight) : SameTopology adj adj' where
  nodes := hnodes
  links := by
    intro u
    refine map_eq_map_of_key (hshape u) fun l hl r hr hlr => ?_
    rw [hweight u l hl r hr hlr, show l.neighbor = r.neighbor from congrArg Prod.fst hlr,
      show l.quality = r.quality from congrArg Prod.snd hlr]
  counterparts := by
    intro u
    refine map_eq_map_of_key (hshape u) fun l hl r hr hlr => ?_
    rw [hc.reverseOf_eq hl, hc'.reverseOf_eq hr, hshape,
      show l.neighbor = r.neighbor from congrArg Prod.fst hlr]

/-- The same topology has the same weights. -/
theorem SameTopology.sameWeights (h : SameTopology adj adj') : SameWeights adj adj' := by
  intro u
  have hlinks := congrArg (List.map fun x : NodeId × UInt16 × UInt32 => (x.1, x.2.2)) (h.links u)
  rw [List.map_map, List.map_map] at hlinks
  have hmem := h.nodes u
  rw [mem_iff_getElem?, mem_iff_getElem?] at hmem
  cases hu : adj[u]? with
  | none =>
    cases hu' : adj'[u]? with
    | none => rfl
    | some nd' => simp [hu, hu'] at hmem
  | some nd =>
    cases hu' : adj'[u]? with
    | none => simp [hu, hu'] at hmem
    | some nd' =>
      rw [linksOf_of_some hu, linksOf_of_some hu'] at hlinks
      exact congrArg some hlinks

/-- Fresh routes of the same graph are the same. -/
theorem Fresh.route_eq {st : Station} (h : Fresh st adj) (h' : Fresh st adj')
    (hw : SameWeights adj adj') (u : NodeId) :
    adj[u]?.map NDescr.route = adj'[u]?.map NDescr.route := by
  obtain ⟨a, ha, hroute⟩ := h
  obtain ⟨b, hb, hroute'⟩ := h'
  have hagree := calcRoutes_congr st hw
  rw [ha, hb] at hagree
  rw [← hroute u, ← hroute' u]
  exact Agree.route hagree u

end

/-! ### Two packets -/

/-- The packet `p` drops a link whose reverse link is in the packet `q`. -/
def Crosses (s : RTopology) (p q : BasePacket) : Prop :=
  HasLink s.adjList (SrcPacket.getSrc p) (SrcPacket.getSrc q) ∧
    ¬ Lists p (SrcPacket.getSrc q) ∧ Lists q (SrcPacket.getSrc p)

/-- The entry of a node is there, or the packet `q` creates it. -/
def Known (s : RTopology) (q : BasePacket) (u : NodeId) : Prop :=
  u ∈ s.adjList ∨ u = SrcPacket.getSrc q ∨ Lists q u ∨ HasLink s.adjList (SrcPacket.getSrc q) u

/-- What `feed` writes for a packet `p` without news is there already, or the packet `q`
writes it. -/
structure SettledBy (m : Metric) (s : RTopology) (p q : BasePacket) : Prop where
  source : Known s q (SrcPacket.getSrc p)
  neighbor : ∀ l ∈ s.adjList.linksOf (SrcPacket.getSrc p), Known s q l.neighbor
  weight : ∀ l ∈ s.adjList.linksOf (SrcPacket.getSrc p),
    ¬ (l.neighbor = SrcPacket.getSrc q ∧ Lists q (SrcPacket.getSrc p)) →
    linkWeight m l.quality (qualityAt s.adjList l.neighbor (SrcPacket.getSrc p))
      = .ok l.metricWeight ∧
    ∀ r ∈ s.adjList.linksOf l.neighbor, r.neighbor = SrcPacket.getSrc p →
      r.metricWeight = l.metricWeight

section
variable {st : Station} {now : AbsTime} {s s1 s2 : RTopology} {p q : BasePacket}

/-- A packet leaves the qualities of the other nodes alone. -/
theorem AppliedGraph.qualityAt_of_ne {m : Metric} {adj : AdjList}
    (h : AppliedGraph m now s p adj) {u : NodeId} (hu : u ≠ SrcPacket.getSrc p) (v : NodeId) :
    qualityAt adj u v = qualityAt s.adjList u v :=
  qualityAt_congr (h.shape_of_ne u hu) v

/-- A link of the source is in the packet. -/
theorem AppliedGraph.lists {m : Metric} {adj : AdjList} (h : AppliedGraph m now s p adj)
    {l : LinkQuality} (hl : l ∈ adj.linksOf (SrcPacket.getSrc p)) : Lists p l.neighbor := by
  have hmem : shape l ∈ (packetLinks p).map shape := by
    rw [← h.shape_source]
    exact List.mem_map_of_mem hl
  obtain ⟨r, hr, hshape⟩ := List.mem_map.mp hmem
  exact ⟨r, hr, congrArg Prod.fst hshape⟩

/-- A neighbour that the packet does not list has no link from its source any more. -/
theorem AppliedGraph.qualityAt_source {m : Metric} {adj : AdjList}
    (h : AppliedGraph m now s p adj) {v : NodeId} (hv : ¬ Lists p v) :
    qualityAt adj (SrcPacket.getSrc p) v = none :=
  qualityAt_eq_none fun _ hl hlv => hv (hlv ▸ h.lists hl)

/-- Behind two packets, a weight that one of them has computed is right, unless the second
packet drops the reverse link. -/
theorem AppliedGraph.right {m : Metric} (hne : SrcPacket.getSrc p ≠ SrcPacket.getSrc q)
    (h1 : AppliedGraph m now s q s1.adjList) (h2 : AppliedGraph m now s1 p s2.adjList)
    (hcross : ¬ Crosses s p q) {u : NodeId} {l : LinkQuality} (hl : l ∈ s2.adjList.linksOf u)
    (ht : Touches (SrcPacket.getSrc p) (packetLinks p) u l.neighbor ∨
      Touches (SrcPacket.getSrc q) (packetLinks q) u l.neighbor) :
    linkWeight m l.quality (qualityAt s2.adjList l.neighbor u) = .ok l.metricWeight := by
  -- The link is touched by the later packet, or only by the earlier.
  by_cases hp : Touches (SrcPacket.getSrc p) (packetLinks p) u l.neighbor
  · exact h2.touched u l hl hp
  · have hq := ht.resolve_left hp
    obtain ⟨r, hr, hshape, hw⟩ := h2.untouched u l hl hp
    have hnb : r.neighbor = l.neighbor := congrArg Prod.fst hshape
    have hqr : r.quality = l.quality := congrArg Prod.snd hshape
    have hright := h1.touched u r hr (hnb ▸ hq)
    rw [hnb, hqr, hw] at hright
    by_cases hv : l.neighbor = SrcPacket.getSrc p
    · -- the link of the source of `q` to the source of `p`, which `p` does not list back
      rcases hq with ⟨rfl, hlist⟩ | ⟨hvq, -⟩
      · have hgone : ¬ Lists p (SrcPacket.getSrc q) := fun hl => hp (.inr ⟨hv, hl⟩)
        have hnone : qualityAt s.adjList (SrcPacket.getSrc p) (SrcPacket.getSrc q) = none := by
          by_contra hsome
          exact hcross ⟨by simpa [HasLink, Option.isSome_iff_ne_none] using hsome, hgone,
            hv ▸ hlist⟩
        rw [hv, h1.qualityAt_of_ne hne, hnone] at hright
        rw [hv, h2.qualityAt_source hgone]
        exact hright
      · exact absurd (hv.symm.trans hvq) hne
    · -- The node at the other end is not the later source, so its links have stayed.
      rw [h2.qualityAt_of_ne hv]
      exact hright

/-- Behind two packets, a weight that none of them has computed is the one from before. -/
theorem AppliedGraph.kept {m : Metric} (h1 : AppliedGraph m now s q s1.adjList)
    (h2 : AppliedGraph m now s1 p s2.adjList) {u : NodeId} {l : LinkQuality}
    (hl : l ∈ s2.adjList.linksOf u)
    (hp : ¬ Touches (SrcPacket.getSrc p) (packetLinks p) u l.neighbor)
    (hq : ¬ Touches (SrcPacket.getSrc q) (packetLinks q) u l.neighbor) :
    ∃ r ∈ s.adjList.linksOf u, shape r = shape l ∧ r.metricWeight = l.metricWeight := by
  obtain ⟨x, hx, hxl, hxw⟩ := h2.untouched u l hl hp
  rw [← show x.neighbor = l.neighbor from congrArg Prod.fst hxl] at hq
  obtain ⟨r, hr, hrx, hrw⟩ := h1.untouched u x hx hq
  exact ⟨r, hr, hrx.trans hxl, hrw.trans hxw⟩

end

/-- The metrics of the repository stay below the ceiling. -/
theorem myCalculate_lt_ceiling {m : Metric} (hm : SymmetricMetric.installed m) {f b : UInt16}
    {mw : UInt32} (h : m.myCalculate f b = .ok mw) : mw < Metric.ceiling := by
  have hsum : f.toUInt32 + b.toUInt32 < Metric.ceiling := by
    have hf := f.toNat_lt
    have hb := b.toNat_lt
    rw [UInt32.lt_iff_toNat_lt, UInt32.toNat_add, UInt16.toNat_toUInt32, UInt16.toNat_toUInt32]
    have : (Metric.ceiling).toNat = 4194303 := by decide
    omega
  rcases hm with rfl | rfl | rfl | rfl
  · cases h
    decide
  · simp only [Metric.etxMetric] at h
    split at h
    · cases h
    · rw [Except.ok.injEq] at h
      rw [← h, UInt32.lt_iff_toNat_lt, UInt32.toNat_div]
      refine lt_of_le_of_lt (Nat.div_le_self _ _) ?_
      decide
  · cases h
    exact hsum
  · cases h
    exact hsum

section
variable {st : Station} {now : AbsTime} {s sp sq spq sqp : RTopology} {p q : BasePacket}

/-- The other nodes have the links they had. -/
theorem AppliedGraph.hasLink_of_ne {m : Metric} {adj : AdjList} (h : AppliedGraph m now s p adj)
    {u : NodeId} (hu : u ≠ SrcPacket.getSrc p) (v : NodeId) :
    HasLink adj u v ↔ HasLink s.adjList u v := by
  simp only [HasLink, h.qualityAt_of_ne hu]

variable (hne : SrcPacket.getSrc p ≠ SrcPacket.getSrc q)
  (hp : AppliedGraph st.metric now s p sp.adjList)
  (hpq : AppliedGraph st.metric now sp q spq.adjList)
  (hq : AppliedGraph st.metric now s q sq.adjList)
  (hqp : AppliedGraph st.metric now sq p sqp.adjList)
include hne hp hpq hq hqp

/-- The link lists do not depend on the order. -/
theorem shape_comm (u : NodeId) :
    (spq.adjList.linksOf u).map shape = (sqp.adjList.linksOf u).map shape := by
  by_cases hua : u = SrcPacket.getSrc p
  · rw [hua, hpq.shape_of_ne _ hne, hp.shape_source, hqp.shape_source]
  · by_cases hub : u = SrcPacket.getSrc q
    · rw [hub, hpq.shape_source, hqp.shape_of_ne _ hne.symm, hq.shape_source]
    · rw [hpq.shape_of_ne _ hub, hp.shape_of_ne _ hua, hqp.shape_of_ne _ hua,
        hq.shape_of_ne _ hub]

/-- The nodes do not depend on the order. -/
theorem nodes_comm (u : NodeId) : u ∈ spq.adjList ↔ u ∈ sqp.adjList := by
  rw [hpq.mem_iff, hp.mem_iff, hqp.mem_iff, hq.mem_iff, hp.hasLink_of_ne hne.symm,
    hq.hasLink_of_ne hne]
  constructor <;> rintro ((h | h | h | h) | h | h | h) <;> simp [h]

/-- Without a dropped reverse link the weights do not depend on the order. -/
theorem weight_comm (hasc : AllAscending s.adjList) (h1 : ¬ Crosses s p q)
    (h2 : ¬ Crosses s q p) {u : NodeId} {l r : LinkQuality} (hl : l ∈ spq.adjList.linksOf u)
    (hr : r ∈ sqp.adjList.linksOf u) (hlr : shape l = shape r) :
    l.metricWeight = r.metricWeight := by
  have hnb : l.neighbor = r.neighbor := congrArg Prod.fst hlr
  have hql : l.quality = r.quality := congrArg Prod.snd hlr
  by_cases ht : Touches (SrcPacket.getSrc p) (packetLinks p) u l.neighbor ∨
      Touches (SrcPacket.getSrc q) (packetLinks q) u l.neighbor
  · have hwl := hp.right hne.symm hpq h2 hl ht.symm
    have hwr := hq.right hne hqp h1 hr (hnb ▸ ht)
    rw [hnb, hql, qualityAt_congr (shape_comm hne hp hpq hq hqp r.neighbor), hwr] at hwl
    exact (Except.ok.inj hwl).symm
  · rw [not_or] at ht
    obtain ⟨x, hx, hxl, hxw⟩ := hp.kept hpq hl ht.2 ht.1
    rw [hnb] at ht
    obtain ⟨y, hy, hyr, hyw⟩ := hq.kept hqp hr ht.1 ht.2
    -- both weights are those of one link of `s`
    obtain ⟨nd, hnd, hx⟩ := getElem?_of_mem_linksOf hx
    rw [linksOf_of_some hnd] at hy
    have hxy : x = y := (hasc u nd hnd).eq_of_key_eq hx hy
      (congrArg Prod.fst (hxl.trans (hlr.trans hyr.symm)))
    rw [← hxw, ← hyw, hxy]

/-- A dropped link whose reverse link is in the other packet gives different weights. -/
theorem weight_differs (hm : SymmetricMetric.installed st.metric) (h : Crosses s p q) :
    ¬ SameTopology spq.adjList sqp.adjList := by
  intro hsame
  obtain ⟨hlink, hgone, hlist⟩ := h
  obtain ⟨r, hr, hra⟩ := hlist
  have hmem : shape r ∈ (spq.adjList.linksOf (SrcPacket.getSrc q)).map shape := by
    rw [hpq.shape_source]
    exact List.mem_map_of_mem hr
  obtain ⟨l, hl, hlr⟩ := List.mem_map.mp hmem
  have hla : l.neighbor = SrcPacket.getSrc p := (congrArg Prod.fst hlr).trans hra
  -- in the order `p`, `q` the link has no reverse link when its weight is computed
  have hceil : l.metricWeight = Metric.ceiling := by
    have hw := hpq.touched _ l hl (.inl ⟨rfl, r, hr, hra.trans hla.symm⟩)
    rw [hla, hpq.qualityAt_of_ne hne, hp.qualityAt_source hgone] at hw
    exact (Except.ok.inj hw).symm
  -- in the order `q`, `p` it has one, and keeps its weight when that is dropped
  have hbelow : ∃ x ∈ sqp.adjList.linksOf (SrcPacket.getSrc q),
      x.neighbor = SrcPacket.getSrc p ∧ x.metricWeight < Metric.ceiling := by
    rw [shape_comm hne hp hpq hq hqp] at hmem
    obtain ⟨x, hx, hxr⟩ := List.mem_map.mp hmem
    have hxa : x.neighbor = SrcPacket.getSrc p := (congrArg Prod.fst hxr).trans hra
    have hntp : ¬ Touches (SrcPacket.getSrc p) (packetLinks p) (SrcPacket.getSrc q)
        x.neighbor := by
      rintro (⟨hqp', -⟩ | ⟨-, hl⟩)
      · exact hne hqp'.symm
      · exact hgone hl
    obtain ⟨y, hy, hyx, hyw⟩ := hqp.untouched _ x hx hntp
    have hya : y.neighbor = SrcPacket.getSrc p := (congrArg Prod.fst hyx).trans hxa
    have hw := hq.touched _ y hy (.inl ⟨rfl, r, hr, hra.trans hya.symm⟩)
    obtain ⟨b, hb⟩ := Option.isSome_iff_exists.mp hlink
    rw [hya, hq.qualityAt_of_ne hne, hb, linkWeight, bind_eq_ok] at hw
    obtain ⟨mw, hmw, hw⟩ := hw
    refine ⟨x, hx, hxa, ?_⟩
    have hlt := myCalculate_lt_ceiling hm hmw
    rw [← hyw, ← Except.ok.inj hw]
    change (if mw ≤ Metric.ceiling then mw else Metric.ceiling) < Metric.ceiling
    rwa [if_pos (UInt32.le_of_lt hlt)]
  obtain ⟨x, hx, hxa, hxw⟩ := hbelow
  have hview : (x.neighbor, x.quality, x.metricWeight)
      ∈ (spq.adjList.linksOf (SrcPacket.getSrc q)).map
        fun l => (l.neighbor, l.quality, l.metricWeight) := by
    rw [hsame.links]
    exact List.mem_map_of_mem
      (f := fun l : LinkQuality => (l.neighbor, l.quality, l.metricWeight)) hx
  obtain ⟨z, hz, hzx⟩ := List.mem_map.mp hview
  rw [Prod.mk.injEq, Prod.mk.injEq] at hzx
  obtain ⟨nd, hnd, hl'⟩ := getElem?_of_mem_linksOf hl
  rw [linksOf_of_some hnd] at hz
  have hzl : z = l := (hpq.consistent.ascending _ nd hnd).eq_of_key_eq hz hl'
    (hzx.1.trans (hxa.trans hla.symm))
  rw [← hzx.2.2, hzl, hceil] at hxw
  exact UInt32.lt_irrefl _ hxw

/-- The graphs are the same exactly when neither packet drops a link whose reverse link is
in the other one. -/
theorem sameTopology_iff (hm : SymmetricMetric.installed st.metric)
    (hasc : AllAscending s.adjList) :
    SameTopology spq.adjList sqp.adjList ↔ ¬ Crosses s p q ∧ ¬ Crosses s q p := by
  constructor
  · intro h
    refine ⟨fun hx => weight_differs hne hp hpq hq hqp hm hx h, fun hx => ?_⟩
    refine weight_differs hne.symm hq hqp hp hpq hm hx ⟨fun u => (h.nodes u).symm,
      fun u => (h.links u).symm, fun u => (h.counterparts u).symm⟩
  · rintro ⟨h1, h2⟩
    exact sameTopology_of_weights hpq.consistent hqp.consistent
      (nodes_comm hne hp hpq hq hqp) (shape_comm hne hp hpq hq hqp)
      fun u l hl r hr hlr => weight_comm hne hp hpq hq hqp hasc h1 h2 hl hr hlr

end

/-! ### The distances -/

section
variable {st : Station} {now : AbsTime} {s s1 s2 : RTopology} {p q : BasePacket}

/-- The qualities that are found for the links of a graph are their own. -/
theorem AppliedGraph.qualityAt_link {u : NodeId} {l : LinkQuality}
    (h1 : AppliedGraph st.metric now s q s1.adjList) (hl : l ∈ s1.adjList.linksOf u) :
    qualityAt s1.adjList u l.neighbor = some l.quality := by
  obtain ⟨nd, hnd, hl⟩ := getElem?_of_mem_linksOf hl
  exact qualityAt_eq_some h1.consistent.ascending hnd hl

/-- Both directions of a link are touched together. -/
theorem Touches.symm {src u v : NodeId} {links : List LinkQuality} (h : Touches src links u v) :
    Touches src links v u :=
  Or.symm h

/-- A link that `q` has touched and its reverse link have the weight that `q` has computed. -/
theorem AppliedGraph.weight_touched (hm : SymmetricMetric st.metric) {a : NodeId}
    (h1 : AppliedGraph st.metric now s q s1.adjList) {l : LinkQuality}
    (hl : l ∈ s1.adjList.linksOf a)
    (ht : Touches (SrcPacket.getSrc q) (packetLinks q) a l.neighbor) :
    linkWeight st.metric l.quality (qualityAt s1.adjList l.neighbor a) = .ok l.metricWeight ∧
      ∀ r ∈ s1.adjList.linksOf l.neighbor, r.neighbor = a → r.metricWeight = l.metricWeight := by
  have hright := h1.touched a l hl ht
  refine ⟨hright, fun r hr hra => ?_⟩
  have hrright := h1.touched l.neighbor r hr (hra ▸ ht.symm)
  have hqr := h1.qualityAt_link hr
  rw [hra] at hqr hrright
  rw [hqr] at hright
  rw [h1.qualityAt_link hl, linkWeight_symm hm, hright] at hrright
  exact (Except.ok.inj hrright).symm

/-- A link that `q` has not touched keeps the weight from before, which is still right. -/
theorem SettledBy.weight_untouched (h : SettledBy st.metric s p q) (hnews : hasNews s p = false)
    (hcross : ¬ Crosses s q p) (h1 : AppliedGraph st.metric now s q s1.adjList)
    {l : LinkQuality} (hl : l ∈ s1.adjList.linksOf (SrcPacket.getSrc p))
    (ht : ¬ Touches (SrcPacket.getSrc q) (packetLinks q) (SrcPacket.getSrc p) l.neighbor) :
    linkWeight st.metric l.quality (qualityAt s1.adjList l.neighbor (SrcPacket.getSrc p))
        = .ok l.metricWeight ∧
      ∀ r ∈ s1.adjList.linksOf l.neighbor, r.neighbor = SrcPacket.getSrc p →
        r.metricWeight = l.metricWeight := by
  set a := SrcPacket.getSrc p with ha
  set b := SrcPacket.getSrc q with hb
  obtain ⟨r0, hr0, hshape, hw0⟩ := h1.untouched a l hl ht
  have hnb : r0.neighbor = l.neighbor := congrArg Prod.fst hshape
  have hq0 : r0.quality = l.quality := congrArg Prod.snd hshape
  -- The link was not touched by `q`, so it is as it was before.
  have hnot : ¬ (r0.neighbor = b ∧ Lists q a) := by
    rintro ⟨hrb, hlist⟩
    exact ht (.inr ⟨hnb ▸ hrb, hlist⟩)
  obtain ⟨hright, hreverse⟩ := h.weight r0 hr0 hnot
  rw [hnb, hq0, hw0] at hright
  rw [hnb, hw0] at hreverse
  by_cases hv : l.neighbor = b
  · -- neither before nor behind `q` there is a link back
    have hgone : ¬ Lists q a := fun hlist => ht (.inr ⟨hv, hlist⟩)
    have hsame : (packetLinks p).map shape = (s.adjList.linksOf a).map shape := by
      simpa [hasNews] using hnews
    have hnone : qualityAt s.adjList b a = none := by
      by_contra hsome
      obtain ⟨x, hx, hxs⟩ := List.mem_map.mp (hsame.symm ▸ List.mem_map_of_mem hr0)
      exact hcross ⟨by simpa [HasLink, Option.isSome_iff_ne_none] using hsome, hgone,
        x, hx, (congrArg Prod.fst hxs).trans (hnb.trans hv)⟩
    rw [hv, hnone] at hright
    rw [hv, h1.qualityAt_source hgone]
    exact ⟨hright, fun r hr hra => absurd (hra ▸ h1.lists hr) hgone⟩
  · -- The quality behind the link is as before, so its weight still fits.
    rw [h1.qualityAt_of_ne hv]
    refine ⟨hright, fun r hr hra => ?_⟩
    have hntr : ¬ Touches b (packetLinks q) l.neighbor r.neighbor := by
      rw [hra]
      exact fun hx => ht hx.symm
    obtain ⟨x, hx, hxr, hxw⟩ := h1.untouched _ r hr hntr
    rw [← hxw]
    exact hreverse x hx ((congrArg Prod.fst hxr).trans hra)

/-- A packet that is settled by `q` is settled behind `q`. -/
theorem SettledBy.settled (hm : SymmetricMetric st.metric)
    (hne : SrcPacket.getSrc p ≠ SrcPacket.getSrc q)
    (h : SettledBy st.metric s p q) (hnews : hasNews s p = false) (hcross : ¬ Crosses s q p)
    (h1 : AppliedGraph st.metric now s q s1.adjList) :
    Settled st.metric s1.adjList (SrcPacket.getSrc p) := by
  have hweight : ∀ l ∈ s1.adjList.linksOf (SrcPacket.getSrc p),
      linkWeight st.metric l.quality (qualityAt s1.adjList l.neighbor (SrcPacket.getSrc p))
          = .ok l.metricWeight ∧
        ∀ r ∈ s1.adjList.linksOf l.neighbor, r.neighbor = SrcPacket.getSrc p →
          r.metricWeight = l.metricWeight := by
    intro l hl
    by_cases ht : Touches (SrcPacket.getSrc q) (packetLinks q) (SrcPacket.getSrc p) l.neighbor
    · exact h1.weight_touched hm hl ht
    · exact h.weight_untouched hnews hcross h1 hl ht
  refine ⟨(h1.mem_iff _).mpr h.source, fun l hl => ?_, fun l hl => (hweight l hl).1,
    fun l hl => (hweight l hl).2⟩
  -- The link was there before `q`, and so was its neighbour.
  obtain ⟨r, hr, hrl⟩ := List.mem_map.mp (h1.shape_of_ne _ hne ▸ List.mem_map_of_mem hl)
  rw [← show r.neighbor = l.neighbor from congrArg Prod.fst hrl]
  exact (h1.mem_iff _).mpr (h.neighbor r hr)

/-- Whether a packet brings news does not depend on a packet of another source. -/
theorem hasNews_of_applied (hne : SrcPacket.getSrc p ≠ SrcPacket.getSrc q)
    (h1 : Applied st now s q s1) : hasNews s1 p = hasNews s p := by
  simp only [hasNews, h1.graph.shape_of_ne _ hne]

/-- The routes behind two packets are fresh if one of the packets makes them so and the
second one does not change the graph behind it. -/
theorem Applied.fresh_of_two (hm : SymmetricMetric st.metric)
    (hne : SrcPacket.getSrc p ≠ SrcPacket.getSrc q) (h1 : Applied st now s q s1)
    (h2 : Applied st now s1 p s2) (hcross : ¬ Crosses s q p)
    (hset : hasNews s p = true ∨ SettledBy st.metric s p q)
    (hsome : s.dirty = true ∨ hasNews s p = true ∨ hasNews s q = true) : Fresh st s2.adjList := by
  have hnews := hasNews_of_applied hne h1
  by_cases hp : hasNews s p = true
  · exact h2.fresh (.inr (hnews.trans hp))
  · have hset := (hset.resolve_left hp).settled hm hne (by simpa using hp) hcross h1.graph
    have hfresh : Fresh st s1.adjList := by
      refine h1.fresh ?_
      rcases hsome with h | h | h
      · exact .inl h
      · exact absurd h hp
      · exact .inr h
    exact hfresh.congr (h2.settled h1.dirty (hnews.trans (by simpa using hp)) hset)

/-- Two packets that do not make the routes fresh leave the stored distances alone. -/
theorem Applied.quiet_of_two (hne : SrcPacket.getSrc p ≠ SrcPacket.getSrc q)
    (h1 : Applied st now s q s1) (h2 : Applied st now s1 p s2) (hdirty : s.dirty = false)
    (hp : hasNews s p = false) (hq : hasNews s q = false) {u : NodeId} {nd : NDescr}
    (hu : s2.adjList[u]? = some nd) : nd.distance = (entryOf st now s.adjList u).distance := by
  rw [h2.quiet h1.dirty ((hasNews_of_applied hne h1).trans hp) u nd hu]
  cases hu1 : s1.adjList[u]? with
  | none =>
    have hnone : s.adjList[u]? = none := by
      rw [← not_mem_iff_getElem?] at hu1 ⊢
      exact fun hmem => hu1 ((h1.graph.mem_iff u).mpr (.inl hmem))
    simp only [entryOf, hu1, hnone]
  | some n1 =>
    rw [entryOf_of_some hu1]
    exact h1.quiet hdirty hq u n1 hu1

end

/-- The distances do not depend on the order: no routes are computed in either order, or a
packet that does not lead to a computation has nothing to change. -/
def Undisturbed (m : Metric) (s : RTopology) (p q : BasePacket) : Prop :=
  (s.dirty = false ∧ hasNews s p = false ∧ hasNews s q = false) ∨
    ((hasNews s p = true ∨ SettledBy m s p q) ∧ (hasNews s q = true ∨ SettledBy m s q p))

/-- Maps with the same node `u` give it the same distance if its entries do. -/
theorem distanceOf_congr {a b : AdjList} {u : NodeId} (hmem : u ∈ a ↔ u ∈ b)
    (h : ∀ n m : NDescr, a[u]? = some n → b[u]? = some m → n.distance = m.distance) :
    a.distanceOf u = b.distanceOf u := by
  rw [mem_iff_getElem?, mem_iff_getElem?] at hmem
  unfold AdjList.distanceOf
  cases ha : a[u]? with
  | none =>
    cases hb : b[u]? with
    | none => rfl
    | some m => simp [ha, hb] at hmem
  | some n =>
    cases hb : b[u]? with
    | none => simp [ha, hb] at hmem
    | some m => exact h n m ha hb

/-- Two packets of different sources that are fed at the same instant to a topology in which
nothing has expired. The graphs of the two orders are the same exactly when neither packet
drops a link whose reverse link is in the other one, and the distances are the same if the
packets also change nothing behind the back of `dirty`. -/
theorem feeds_commute {st : Station} (hm : SymmetricMetric.installed st.metric)
    {s sp spq sq sqp : RTopology} {now : AbsTime} {p q : BasePacket}
    (hs : Reachable st (fun _ e => FeedsSized e) s) (hu : Unexpired now s.adjList)
    (hp : SizeOk p) (hq : SizeOk q) (hne : SrcPacket.getSrc p ≠ SrcPacket.getSrc q)
    (h1 : s.feed st now p = .ok sp) (h2 : sp.feed st now q = .ok spq)
    (h3 : s.feed st now q = .ok sq) (h4 : sq.feed st now p = .ok sqp) :
    (SameTopology spq.adjList sqp.adjList ↔
      s.locked = true ∨ ¬ Crosses s p q ∧ ¬ Crosses s q p) ∧
    (s.locked = true ∨ (¬ Crosses s p q ∧ ¬ Crosses s q p) ∧ Undisturbed st.metric s p q →
      ∀ u, spq.adjList.distanceOf u = sqp.adjList.distanceOf u) := by
  have hc := consistent_of_reachable hs
  have hsymm := symmetric_of_installed hm
  by_cases hlocked : s.locked = true
  · -- a locked topology ignores both packets
    have hfeed : ∀ p, s.feed st now p = .ok s := fun p => by rw [RTopology.feed, if_pos hlocked]
    rw [hfeed, Except.ok.injEq] at h1 h3
    subst h1 h3
    rw [hfeed, Except.ok.injEq] at h2 h4
    subst h2 h4
    exact ⟨⟨fun _ => .inl hlocked, fun _ => ⟨fun _ => .rfl, fun _ => rfl, fun _ => rfl⟩⟩,
      fun _ _ => rfl⟩
  · have hlocked' : s.locked = false := by simpa using hlocked
    have ap := Applied.of_feed hsymm hc hu hlocked' hp h1
    have apq := Applied.of_feed hsymm ap.graph.consistent ap.graph.unexpired ap.locked hq h2
    have aq := Applied.of_feed hsymm hc hu hlocked' hq h3
    have aqp := Applied.of_feed hsymm aq.graph.consistent aq.graph.unexpired aq.locked hp h4
    have hiff := sameTopology_iff hne ap.graph apq.graph aq.graph aqp.graph hm hc.ascending
    refine ⟨by rw [hiff, or_iff_right hlocked], fun hcond u => ?_⟩
    obtain ⟨hcross, hset⟩ := hcond.resolve_left hlocked
    have hsame := hiff.mpr hcross
    by_cases hsome : s.dirty = true ∨ hasNews s p = true ∨ hasNews s q = true
    · -- one of the packets makes the routes fresh, in both orders
      have hset : (hasNews s p = true ∨ SettledBy st.metric s p q) ∧
          (hasNews s q = true ∨ SettledBy st.metric s q p) := by
        refine hset.resolve_left fun hstill => ?_
        simp [hstill.1, hstill.2.1, hstill.2.2] at hsome
      have hf := ap.fresh_of_two hsymm hne.symm apq hcross.1 hset.2 (hsome.imp_right Or.symm)
      have hf' := aq.fresh_of_two hsymm hne aqp hcross.2 hset.1 hsome
      have hroute := hf.route_eq hf' hsame.sameWeights u
      refine distanceOf_congr (hsame.nodes u) fun n m hn hm => ?_
      rw [hn, hm, Option.map_some, Option.map_some, Option.some.injEq] at hroute
      exact congrArg Prod.fst hroute
    · -- no routes are computed, and the distances are those of `s`
      simp only [not_or, Bool.not_eq_true] at hsome
      obtain ⟨hdirty, hnp, hnq⟩ := hsome
      refine distanceOf_congr (hsame.nodes u) fun n m hn hm => ?_
      exact (ap.quiet_of_two hne.symm apq hdirty hnq hnp hn).trans
        (aq.quiet_of_two hne aqp hdirty hnp hnq hm).symm

/-- The state of the run, with the results of feeding two packets in both orders. -/
def bothOrders (p q : BasePacket) :
    Result (RTopology × (RTopology × RTopology) × (RTopology × RTopology)) := do
  let s ← mutualRun.foldlM (exec (.hopCount 1)) (init (.hopCount 1) 0)
  let sp ← s.feed (.hopCount 1) 0 p
  let spq ← sp.feed (.hopCount 1) 0 q
  let sq ← s.feed (.hopCount 1) 0 q
  let sqp ← sq.feed (.hopCount 1) 0 p
  .ok (s, (sp, spq), (sq, sqp))

/-- A run of both orders that ends without an error: the state is reachable and the four calls
return. -/
theorem bothOrders_ok {p q : BasePacket} {s sp spq sq sqp : RTopology}
    (h : bothOrders p q = .ok (s, (sp, spq), (sq, sqp))) :
    Reachable (.hopCount 1) (fun _ e => FeedsSized e) s ∧
      s.feed (.hopCount 1) 0 p = .ok sp ∧ sp.feed (.hopCount 1) 0 q = .ok spq ∧
      s.feed (.hopCount 1) 0 q = .ok sq ∧ sq.feed (.hopCount 1) 0 p = .ok sqp := by
  obtain ⟨s, hs, h⟩ := bind_eq_ok.mp h
  obtain ⟨sp, h1, h⟩ := bind_eq_ok.mp h
  obtain ⟨spq, h2, h⟩ := bind_eq_ok.mp h
  obtain ⟨sq, h3, h⟩ := bind_eq_ok.mp h
  obtain ⟨sqp, h4, h⟩ := bind_eq_ok.mp h
  cases h
  exact ⟨⟨0, steps_of_events mutualRun _ s (fun e he _ => feedsSized_mutualRun e he) hs⟩,
    h1, h2, h3, h4⟩

/-- Both stations report another quality of their link, in either order. -/
theorem feeds_commute_mutualRun :
    ∃ s sp spq sq sqp, bothOrders (topoOf 1 9000 [(2, 30)]) (topoOf 2 5000 [(1, 40)])
        = .ok (s, (sp, spq), (sq, sqp)) ∧
      SameTopology spq.adjList sqp.adjList ∧
      ∀ u, spq.adjList.distanceOf u = sqp.adjList.distanceOf u := by
  obtain ⟨⟨s, ⟨sp, spq⟩, ⟨sq, sqp⟩⟩, hrun, htest⟩ := exists_of_test
    (bothOrders (topoOf 1 9000 [(2, 30)]) (topoOf 2 5000 [(1, 40)]))
    (fun r => (r.1.adjList.toList.all fun e =>
        decide (0 < e.2.edgeValidity ∧ 0 < e.2.nodeValidity)) &&
      hasNews r.1 (topoOf 1 9000 [(2, 30)]) && hasNews r.1 (topoOf 2 5000 [(1, 40)]))
    (by decide +kernel)
  simp only [Bool.and_eq_true, List.all_eq_true, decide_eq_true_eq] at htest
  obtain ⟨⟨hvalid, hnp⟩, hnq⟩ := htest
  obtain ⟨hreach, h1, h2, h3, h4⟩ := bothOrders_ok hrun
  -- Each of the two lists the other.
  have hl1 : Lists (topoOf 1 9000 [(2, 30)]) (SrcPacket.getSrc (topoOf 2 5000 [(1, 40)])) := by
    unfold Lists
    decide +kernel
  have hl2 : Lists (topoOf 2 5000 [(1, 40)]) (SrcPacket.getSrc (topoOf 1 9000 [(2, 30)])) := by
    unfold Lists
    decide +kernel
  -- So neither takes a link away that the other has.
  have hcross : ¬ Crosses s (topoOf 1 9000 [(2, 30)]) (topoOf 2 5000 [(1, 40)]) ∧
      ¬ Crosses s (topoOf 2 5000 [(1, 40)]) (topoOf 1 9000 [(2, 30)]) :=
    ⟨fun h => h.2.1 hl1, fun h => h.2.1 hl2⟩
  obtain ⟨hgraph, hdist⟩ := feeds_commute (.inl rfl) hreach (unexpired_of_toList hvalid)
    (by decide +kernel) (by decide +kernel) (by decide +kernel) h1 h2 h3 h4
  exact ⟨s, sp, spq, sq, sqp, hrun, hgraph.mpr (.inr hcross),
    hdist (.inr ⟨hcross, .inr ⟨.inl hnp, .inl hnq⟩⟩)⟩

/-- Station 1 drops its link to station 2, which still lists its own. When the packet of
station 1 comes second, the link 2 → 1 keeps the weight 1. -/
theorem feeds_differ_mutualRun :
    ∃ s sp spq sq sqp, Reachable (.hopCount 1) (fun _ e => FeedsSized e) s ∧
      Unexpired 0 s.adjList ∧
      bothOrders (topoOf 1 9000 []) (topoOf 2 5000 [(1, 20)]) = .ok (s, (sp, spq), (sq, sqp)) ∧
      SizeOk (topoOf 1 9000 []) ∧ SizeOk (topoOf 2 5000 [(1, 20)]) ∧
      SrcPacket.getSrc (topoOf 1 9000 []) ≠ SrcPacket.getSrc (topoOf 2 5000 [(1, 20)]) ∧
      ¬ SameTopology spq.adjList sqp.adjList := by
  obtain ⟨⟨s, ⟨sp, spq⟩, ⟨sq, sqp⟩⟩, hrun, htest⟩ := exists_of_test
    (bothOrders (topoOf 1 9000 []) (topoOf 2 5000 [(1, 20)]))
    (fun r => (r.1.adjList.toList.all fun e =>
        decide (0 < e.2.edgeValidity ∧ 0 < e.2.nodeValidity)) &&
      decide ((r.2.1.2.adjList.linksOf 2).map LinkQuality.metricWeight
        ≠ (r.2.2.2.adjList.linksOf 2).map LinkQuality.metricWeight)) (by decide +kernel)
  simp only [Bool.and_eq_true, List.all_eq_true, decide_eq_true_eq] at htest
  obtain ⟨hvalid, hdiffer⟩ := htest
  refine ⟨s, sp, spq, sq, sqp, (bothOrders_ok hrun).1, unexpired_of_toList hvalid, hrun,
    by decide +kernel, by decide +kernel, by decide +kernel, fun hsame => hdiffer ?_⟩
  have := congrArg (List.map fun x : NodeId × UInt16 × UInt32 => x.2.2) (hsame.links 2)
  rwa [List.map_map, List.map_map] at this

end Awds.Proofs
