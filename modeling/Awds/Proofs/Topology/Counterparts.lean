import Awds.Proofs.Topology.Cleanup
import Awds.Proofs.Topology.Routes

/-!
# `Awds.Proofs.Topology.Counterparts`: the counterpart of a link is its reverse link

`Consistent` holds in every state of a run. It is kept by the pieces that the calls are
made of, and `exec_keeps` puts the pieces together: what the creation of an entry, the
merge, the cleanup, the computation of the routes and the invalidation of `reset` keep, an
event keeps.

The one piece with work in it is the merge (`Merged.consistent`). Behind it the source has
another vector. A pointer to the old vector can only be held by the neighbours of an old
link, and the merge visits all of these.
-/

set_option autoImplicit false

namespace Awds.Proofs

open Std (ExtTreeMap)
open Awds.Lib Awds.AdjList Awds.RTopology

/-! ### The pieces of an event -/

/-- The event is no feed of a packet that fails a size check. -/
def FeedsSized (e : Event) : Prop :=
  ∀ p, e.op = .feed p → SizeOk p

/-- What `getNextHop` reads from the entry of the destination. -/
def storedHop (st : Station) (s : RTopology) (dest : NodeId) : NodeId × Bool :=
  match s.adjList[dest]? with
  | none => (0, false)
  | some nd => (nd.nextHop, decide (nd.nextHop ≠ st.myNodeId))

/-- `getNextHop` recomputes the routes when they are out of date, and then looks the next hop
up. -/
theorem getNextHop_spec {st : Station} {now : AbsTime} {s s' : RTopology} {dest : NodeId}
    {r : NodeId × Bool} (h : s.getNextHop st now dest = .ok (s', r)) :
    r = storedHop st s' dest ∧
      ((s.dirty = true ∧ s.updateTopology st now = .ok s') ∨ (s.dirty = false ∧ s' = s)) := by
  -- The entry is read in the same way after an update and without one.
  have hlookup : ∀ t : RTopology, (match t.adjList[dest]? with
      | none => (.ok (t, 0, false) : Result (RTopology × NodeId × Bool))
      | some nd => .ok (t, nd.nextHop, decide (nd.nextHop ≠ st.myNodeId))) = .ok (s', r) →
      s' = t ∧ r = storedHop st t dest := by
    intro t ht
    unfold storedHop
    cases hd : t.adjList[dest]? with
    | none =>
      rw [hd] at ht
      cases ht
      exact ⟨rfl, rfl⟩
    | some nd =>
      rw [hd] at ht
      cases ht
      exact ⟨rfl, rfl⟩
  rw [RTopology.getNextHop] at h
  -- A dirty topology is brought up to date first.
  split at h
  · rename_i hd
    obtain ⟨s1, h1, h⟩ := bind_eq_ok.mp h
    obtain ⟨rfl, hr⟩ := hlookup s1 h
    exact ⟨hr, .inl ⟨hd, h1⟩⟩
  · -- A clean one is read as it stands.
    rename_i hd
    obtain ⟨rfl, hr⟩ := hlookup s h
    exact ⟨hr, .inr ⟨by simpa using hd, rfl⟩⟩

/-- What the pieces of a call keep, the call keeps. -/
theorem exec_keeps {st : Station} {e : Event} {P : RTopology → Prop}
    (entry : ∀ s id, P s → P (s.getNodeEntry st e.now id))
    (merge : ∀ s p links s', P s → SrcPacket.getSrc p ∈ s.adjList →
      0 < TopoPacket.getValidity p → AscendingLinks links → (∀ l ∈ links, l.quality ≠ 0) →
      s.mergeLinks st e.now (e.now + TopoPacket.getValidity p) p links = .ok s' → P s')
    (sweep : ∀ s s' next, P s → s.removeOldNodes e.now = .ok (s', next) → P s')
    (routes : ∀ s adj, P s → s.adjList.calcRoutes st = .ok adj →
      P { s with adjList := adj, dirty := false })
    (invalidate : ∀ t s, e.op = .reset t → P s → P (invalidate st t { s with dirty := true }))
    (locked : ∀ s b, P s → P { s with locked := b })
    (watched : ∀ s, P s → P { s with watched := true })
    {s s' : RTopology} (hs : P s) (he : FeedsSized e) (h : s.exec st e = .ok s') : P s' := by
  -- `feed` and `getNextHop` both end in the computation of the routes.
  have update : ∀ {s s'}, P s → s.updateTopology st e.now = .ok s' → P s' := by
    intro s s' hs h
    obtain ⟨⟨s1, next⟩, h1, h⟩ := bind_eq_ok.mp h
    obtain ⟨adj, h2, h⟩ := bind_eq_ok.mp h
    cases h
    exact routes s1 adj (sweep s s1 next hs h1) h2
  obtain ⟨now, op⟩ := e
  cases op with
  | feed p =>
    rcases feed_cases (he p rfl) h with ⟨-, rfl⟩ | ⟨-, hval, links, s1, hlinks, hmerge, h⟩
    · exact hs
    · have hmem : SrcPacket.getSrc p ∈ (s.getNodeEntry st now (SrcPacket.getSrc p)).adjList := by
        rw [getNodeEntry_adjList]
        simp
      obtain ⟨hasc, -, hpos⟩ := parseLinks_ascending _ _ _ _ _ hlinks
      have hs1 := merge _ p links s1 (entry s _ hs) hmem hval hasc hpos hmerge
      split at h
      · exact update hs1 h
      · cases h
        exact hs1
  | cleanup =>
    obtain ⟨⟨s1, next⟩, h1, h⟩ := bind_eq_ok.mp h
    cases h
    exact sweep s _ next hs h1
  | reset t =>
    obtain ⟨⟨s1, next⟩, h1, h⟩ := bind_eq_ok.mp h
    cases h
    exact sweep _ _ next (invalidate t s rfl hs) h1
  | setLocked b =>
    cases h
    exact locked s b hs
  | getNextHop dest =>
    obtain ⟨⟨s1, r⟩, h1, h⟩ := bind_eq_ok.mp h
    cases h
    rcases (getNextHop_spec h1).2 with ⟨-, h2⟩ | ⟨-, rfl⟩
    · exact update hs h2
    · exact hs
  | watch =>
    cases h
    exact watched s hs

/-! ### The pieces keep the counterparts -/

/-- Searches in maps with the same graph give the same result. -/
theorem SameGraph.findLink {adj adj' : AdjList} (h : SameGraph adj adj') (v id : NodeId) :
    adj'.findLink v id = adj.findLink v id := by
  unfold AdjList.findLink
  cases h1 : adj'[v]? with
  | none =>
    have h2 : adj[v]? = none := by
      rw [← not_mem_iff_getElem?, ← h.mem_iff, not_mem_iff_getElem?]
      exact h1
    rw [h2]
  | some nd =>
    obtain ⟨n, hn, hlist, -⟩ := h.entry h1
    rw [hn]
    simp only [NDescr.findLinkQuality, NDescr.links, hlist]

/-- Consistency does not depend on the labels of the routes. -/
theorem Consistent.of_sameGraph {adj adj' : AdjList} (h : Consistent adj)
    (hs : SameGraph adj adj') : Consistent adj' where
  ascending := by
    intro u nd hu
    obtain ⟨n, hn, hlist, -⟩ := hs.entry hu
    have := h.ascending u n hn
    rwa [NDescr.links, hlist] at this
  counterpart := by
    intro u nd hu l hl
    obtain ⟨n, hn, hlist, -⟩ := hs.entry hu
    rw [hs.findLink]
    refine h.counterpart u n hn l ?_
    rwa [NDescr.links, hlist]
  validity := by
    intro u nd hu
    obtain ⟨n, hn, -, hedge, hnode⟩ := hs.entry hu
    rw [← hedge, ← hnode]
    exact h.validity u n hn

/-- `getNodeEntry` keeps the consistency: a new entry has no links. -/
theorem Consistent.insert_entryOf {adj : AdjList} (h : Consistent adj) (st : Station)
    (now : AbsTime) (id : NodeId) : Consistent (adj.insert id (entryOf st now adj id)) := by
  have hfind : ∀ v x, AdjList.findLink (adj.insert id (entryOf st now adj id)) v x
      = adj.findLink v x := by
    intro v x
    by_cases hv : id = v
    · subst hv
      rw [findLink_eq_entryOf st now adj, AdjList.findLink, getElem?_insertAt, if_pos rfl]
    · simp [AdjList.findLink, hv]
  -- Every entry was there before, except a new one, which has nothing to be wrong about.
  have hentry : ∀ (u : NodeId) (nd : NDescr),
      (adj.insert id (entryOf st now adj id))[u]? = some nd →
      adj[u]? = some nd ∨ (nd.links = [] ∧ nd.edgeValidity ≤ nd.nodeValidity) := by
    intro u nd hu
    rw [getElem?_insertAt] at hu
    split at hu
    · rename_i hidu
      subst hidu
      rw [Option.some.injEq] at hu
      subst hu
      unfold entryOf
      cases hn : adj[id]? with
      | none => exact .inr ⟨rfl, le_rfl⟩
      | some n => exact .inl rfl
    · exact .inl hu
  refine ⟨?_, ?_, ?_⟩
  · intro u nd hu
    rcases hentry u nd hu with hu | ⟨hl, -⟩
    · exact h.ascending u nd hu
    · rw [hl]
      exact List.Pairwise.nil
  · intro u nd hu l hmem
    rw [hfind]
    rcases hentry u nd hu with hu | ⟨hl, -⟩
    · exact h.counterpart u nd hu l hmem
    · rw [hl] at hmem
      cases hmem
  · intro u nd hu
    rcases hentry u nd hu with hu | ⟨-, hv⟩
    · exact h.validity u nd hu
    · exact hv

/-- A new entry has no links, so it takes no counterpart away. -/
theorem Consistent.getNodeEntry {s : RTopology} (h : Consistent s.adjList) (st : Station)
    (now : AbsTime) (id : NodeId) : Consistent (s.getNodeEntry st now id).adjList := by
  rw [getNodeEntry_adjList]
  exact h.insert_entryOf st now id

/-! ### The merge keeps the counterparts -/

section
variable {st : Station} {now newValidity : AbsTime} {src : NodeId} {adj0 adj : AdjList}
  {ns : NDescr} {old : List LinkQuality} {name : List UInt8}

/-- The three ways in which a node other than the source can take part in the merge. -/
theorem Merged.cases (h : Merged st now newValidity src adj0 ns old name adj) {v : NodeId}
    (hv : v ≠ src) :
    (∃ l ∈ ns.links, l.neighbor = v ∧
      adj[v]? = some (attachedEntry st now newValidity src adj0 l)) ∨
    ((∀ l ∈ ns.links, l.neighbor ≠ v) ∧ (∃ l ∈ old, l.neighbor = v) ∧
      adj[v]? = some (detachedEntry st now src adj0 v)) ∨
    ((∀ l ∈ ns.links, l.neighbor ≠ v) ∧ (∀ l ∈ old, l.neighbor ≠ v) ∧ adj[v]? = adj0[v]?) := by
  by_cases hnew : ∃ l ∈ ns.links, l.neighbor = v
  · obtain ⟨l, hl, rfl⟩ := hnew
    exact .inl ⟨l, hl, rfl, h.attached l hl hv⟩
  · have hnew : ∀ l ∈ ns.links, l.neighbor ≠ v := fun l hl hlv => hnew ⟨l, hl, hlv⟩
    by_cases hold : ∃ l ∈ old, l.neighbor = v
    · obtain ⟨l, hl, rfl⟩ := hold
      exact .inr (.inl ⟨hnew, ⟨l, hl, rfl⟩, h.detached l hl hnew hv⟩)
    · have hold : ∀ l ∈ old, l.neighbor ≠ v := fun l hl hlv => hold ⟨l, hl, hlv⟩
      exact .inr (.inr ⟨hnew, hold, h.other v hv hnew hold⟩)

/-- What the merge does to the entry of a node other than the source: it changes the link
to the source at most, and the node may live longer. -/
structure Touched (src : NodeId) (before after : NDescr) (f : LinkQuality → LinkQuality) :
    Prop where
  neighbor : ∀ l, (f l).neighbor = l.neighbor
  quality : ∀ l, (f l).quality = l.quality
  linklist : after.linklist = (before.mapLink src f).linklist
  edgeValidity : after.edgeValidity = before.edgeValidity
  nodeValidity : before.nodeValidity ≤ after.nodeValidity

/-- Without a link of the source to `v`, nothing is found. -/
theorem findLink_source_none (hsrc : adj0[src]? = some ns) (hasc : AscendingLinks ns.links)
    {v : NodeId} (hv : ∀ l ∈ ns.links, l.neighbor ≠ v) : adj0.findLink src v = none := by
  simp only [AdjList.findLink, hsrc, Option.map_eq_none_iff]
  exact (findLinkQuality_eq_none_iff hasc).mpr hv

/-- The merge touches the entry of another node in one way at most: as a neighbour in the packet, as
a neighbour that the packet does not list any more, or not at all. -/
theorem Merged.touched (h : Merged st now newValidity src adj0 ns old name adj)
    (hsrc : adj0[src]? = some ns) (hasc : AscendingLinks ns.links) {v : NodeId} (hv : v ≠ src)
    {nd : NDescr} (hnd : adj[v]? = some nd) :
    ∃ f, Touched src (entryOf st now adj0 v) nd f ∧
      ((∀ l, (f l).counterpart = adj0.findLink src v) ∨
        (f = id ∧ (∀ l ∈ ns.links, l.neighbor ≠ v) ∧ (∀ l ∈ old, l.neighbor ≠ v))) := by
  -- `v` is a neighbour of the source now, or it was one before, or neither.
  rcases h.cases hv with ⟨l, hl, rfl, heq⟩ | ⟨hnew, -, heq⟩ | ⟨hnew, hold, heq⟩
  · rw [hnd, Option.some.injEq] at heq
    subst heq
    refine ⟨connect (adj0.findLink src l.neighbor) (weightD st.metric adj0 src l),
      ⟨fun _ => rfl, fun _ => rfl, ?_, ?_, ?_⟩, .inl fun _ => rfl⟩
    · simp only [attachedEntry, NDescr.mapLink, raisedEntry, NDescr.linklist_updateNodeValidity]
    · simp only [attachedEntry, NDescr.mapLink, raisedEntry,
        NDescr.edgeValidity_updateNodeValidity]
    · simp only [attachedEntry, NDescr.mapLink, raisedEntry,
        NDescr.nodeValidity_updateNodeValidity]
      exact le_max_left _ _
  · rw [hnd, Option.some.injEq] at heq
    subst heq
    refine ⟨disconnect, ⟨fun _ => rfl, fun _ => rfl, rfl, rfl, le_rfl⟩, .inl fun _ => ?_⟩
    rw [findLink_source_none hsrc hasc hnew]
    rfl
  · rw [hnd] at heq
    have hent : entryOf st now adj0 v = nd := entryOf_of_some heq.symm
    refine ⟨id, ⟨fun _ => rfl, fun _ => rfl, ?_, ?_, ?_⟩, .inr ⟨rfl, hnew, hold⟩⟩
    · rw [hent, NDescr.mapLink_eq_mapLinks, NDescr.mapLinks_eq_self]
      intro l _
      split <;> rfl
    · rw [hent]
    · rw [hent]

/-- The merge keeps the neighbours and the buffers of all vectors. -/
theorem Merged.findLink (h : Merged st now newValidity src adj0 ns old name adj)
    (hsrc : adj0[src]? = some ns) (hasc : AscendingLinks ns.links) (v id : NodeId) :
    adj.findLink v id = adj0.findLink v id := by
  by_cases hv : v = src
  · subst hv
    exact findLink_map_mapLinks (f := mergedLink st.metric adj0 v) (fun _ => rfl) hsrc h.source
      rfl id
  · cases hnd : adj[v]? with
    | none =>
      rcases h.cases hv with ⟨l, -, -, heq⟩ | ⟨-, -, heq⟩ | ⟨-, -, heq⟩
      · simp [hnd] at heq
      · simp [hnd] at heq
      · simp only [AdjList.findLink, ← heq, hnd]
    | some nd =>
      obtain ⟨f, ht, -⟩ := h.touched hsrc hasc hv hnd
      have hq : nd.findLinkQuality id = (entryOf st now adj0 v).findLinkQuality id := by
        rw [← NDescr.findLinkQuality_mapLinks (f := fun l => if l.neighbor = src then f l else l)
          (fun l => by split <;> simp [ht.neighbor]) (entryOf st now adj0 v) id]
        simp only [NDescr.findLinkQuality, NDescr.links, ht.linklist,
          NDescr.mapLink_eq_mapLinks]
      rw [findLink_eq_entryOf st now adj0]
      simp only [AdjList.findLink, hnd, hq, ht.linklist, NDescr.buf_mapLink]

end

section
variable {st : Station} {now newValidity : AbsTime} {src : NodeId} {s : RTopology}
  {adj : AdjList} {ns : NDescr} {links : List LinkQuality} {name : List UInt8}

/-- Behind the swap the source has its new entry and the others have theirs. -/
theorem swapLinks_lookup (hs : s.adjList[src]? = some ns) (v : NodeId) :
    (s.swapLinks src newValidity links).adjList[v]? =
      if v = src then some (swappedEntry s newValidity links ns) else s.adjList[v]? := by
  simp only [swapLinks, modifyNode, getElem?_modifyAt]
  by_cases hv : v = src
  · subst hv
    rw [if_pos rfl, if_pos rfl, hs]
    rfl
  · rw [if_neg (Ne.symm hv), if_neg hv]

/-- The vectors of the others are searched as before. -/
theorem findLink_swapLinks (hs : s.adjList[src]? = some ns) {v : NodeId} (hv : v ≠ src)
    (id : NodeId) :
    (s.swapLinks src newValidity links).adjList.findLink v id = s.adjList.findLink v id := by
  simp only [AdjList.findLink, swapLinks_lookup hs, if_neg hv]

/-- The entry that the merge gets for another node is the one in front of the swap. -/
theorem entryOf_swapLinks (hs : s.adjList[src]? = some ns) {v : NodeId} (hv : v ≠ src) :
    entryOf st now (s.swapLinks src newValidity links).adjList v = entryOf st now s.adjList v :=
  entryOf_congr (by rw [swapLinks_lookup hs, if_neg hv]) st now

/-- The merge keeps the map consistent. -/
theorem Merged.consistent (hc : Consistent s.adjList) (hs : s.adjList[src]? = some ns)
    (hnew : AscendingLinks links)
    (h : Merged st now newValidity src (s.swapLinks src newValidity links).adjList
      (swappedEntry s newValidity links ns) ns.links name adj) : Consistent adj := by
  have hent := hc.insert_entryOf st now
  set adj0 := (s.swapLinks src newValidity links).adjList with hadj0
  have hsrc : adj0[src]? = some (swappedEntry s newValidity links ns) := by
    rw [hadj0, swapLinks_lookup hs, if_pos rfl]
  have hfind := h.findLink hsrc hnew
  refine ⟨?_, ?_, ?_⟩
  · intro v nd hv
    by_cases hvs : v = src
    · subst hvs
      rw [h.source, Option.some.injEq] at hv
      subst hv
      exact NDescr.ascending_mapLinks (f := mergedLink st.metric adj0 v) (fun _ => rfl)
        (show AscendingLinks (swappedEntry s newValidity links ns).links from hnew)
    · obtain ⟨f, ht, -⟩ := h.touched hsrc hnew hvs hv
      rw [entryOf_swapLinks hs hvs] at ht
      rw [NDescr.links, ht.linklist, NDescr.mapLink_eq_mapLinks]
      refine NDescr.ascending_mapLinks (fun l => by split <;> simp [ht.neighbor]) ?_
      exact hc.ascending.entryOf st now v
  · intro v nd hv l hl
    rw [hfind]
    by_cases hvs : v = src
    · subst hvs
      rw [h.source, Option.some.injEq] at hv
      subst hv
      obtain ⟨r, -, rfl⟩ := List.mem_map.mp hl
      rfl
    · obtain ⟨f, ht, hcp⟩ := h.touched hsrc hnew hvs hv
      rw [entryOf_swapLinks hs hvs] at ht
      rw [NDescr.links, ht.linklist] at hl
      obtain ⟨r, hr, rfl⟩ := List.mem_map.mp hl
      -- the pointer that the link had before the merge
      have hbefore : r.counterpart = s.adjList.findLink r.neighbor v :=
        hc.counterpart v _ (getElem?_of_mem_links hr) r hr
      by_cases hrs : r.neighbor = src
      · rw [if_pos hrs, ht.neighbor, hrs]
        rcases hcp with hcp | ⟨rfl, hnotNew, hnotOld⟩
        · exact hcp r
        · rw [findLink_source_none hsrc hnew hnotNew]
          rw [hrs, findLink_source_none hs (hc.ascending _ _ hs) hnotOld] at hbefore
          exact hbefore
      · rw [if_neg hrs, hadj0, findLink_swapLinks hs hrs]
        exact hbefore
  · intro v nd hv
    by_cases hvs : v = src
    · subst hvs
      rw [h.source, Option.some.injEq] at hv
      subst hv
      simp only [NDescr.mapLinks, swappedEntry, NDescr.nodeValidity_updateNodeValidity]
      exact le_max_right _ _
    · obtain ⟨f, ht, -⟩ := h.touched hsrc hnew hvs hv
      rw [entryOf_swapLinks hs hvs] at ht
      have hins := (hent v).validity v (entryOf st now s.adjList v)
        (by rw [getElem?_insertAt, if_pos rfl])
      rw [ht.edgeValidity]
      exact hins.trans ht.nodeValidity

end

/-! ### Every run -/

/-- The invalidation of `reset` only touches the validities. -/
theorem Consistent.invalidate {s : RTopology} (h : Consistent s.adjList) (st : Station)
    (t : AbsTime) : Consistent (invalidate st t s).adjList := by
  -- The vectors stay, and the validities stay or become the same.
  have hentry : ∀ (u : NodeId) (nd : NDescr), (RTopology.invalidate st t s).adjList[u]? = some nd →
      ∃ n, s.adjList[u]? = some n ∧ n.linklist = nd.linklist ∧
        (nd.edgeValidity = nd.nodeValidity ∨
          nd.edgeValidity = n.edgeValidity ∧ nd.nodeValidity = n.nodeValidity) := by
    intro u nd hu
    rw [RTopology.invalidate, getElem?_mapEntries, Option.map_eq_some_iff] at hu
    obtain ⟨n, hn, rfl⟩ := hu
    refine ⟨n, hn, ?_⟩
    split
    · exact ⟨rfl, .inl rfl⟩
    · exact ⟨rfl, .inr ⟨rfl, rfl⟩⟩
  have hfind : ∀ v id, (RTopology.invalidate st t s).adjList.findLink v id
      = s.adjList.findLink v id := by
    intro v id
    unfold AdjList.findLink
    cases hv : (RTopology.invalidate st t s).adjList[v]? with
    | none =>
      rw [RTopology.invalidate, getElem?_mapEntries, Option.map_eq_none_iff] at hv
      rw [hv]
    | some nd =>
      obtain ⟨n, hn, hlist, -⟩ := hentry v nd hv
      rw [hn]
      simp only [NDescr.findLinkQuality, NDescr.links, hlist]
  refine ⟨?_, ?_, ?_⟩
  · intro u nd hu
    obtain ⟨n, hn, hlist, -⟩ := hentry u nd hu
    have := h.ascending u n hn
    rwa [NDescr.links, hlist] at this
  · intro u nd hu l hl
    obtain ⟨n, hn, hlist, -⟩ := hentry u nd hu
    rw [hfind]
    refine h.counterpart u n hn l ?_
    rwa [NDescr.links, hlist]
  · intro u nd hu
    obtain ⟨n, hn, -, hval | ⟨h1, h2⟩⟩ := hentry u nd hu
    · exact hval.le
    · rw [h1, h2]
      exact h.validity u n hn

/-- The topology of a station that has just been started has its own node at most, without links. -/
theorem consistent_init (st : Station) (t : AbsTime) : Consistent (init st t).adjList := by
  have hentry : ∀ (u : NodeId) (nd : NDescr), (init st t).adjList[u]? = some nd →
      nd.links = [] ∧ nd.edgeValidity = nd.nodeValidity := by
    intro u nd hu
    rw [init, getElem?_insertAt] at hu
    split at hu
    · cases hu
      exact ⟨rfl, rfl⟩
    · simp at hu
  refine ⟨?_, ?_, ?_⟩
  · intro u nd hu
    rw [(hentry u nd hu).1]
    exact List.Pairwise.nil
  · intro u nd hu l hl
    rw [(hentry u nd hu).1] at hl
    cases hl
  · intro u nd hu
    exact (hentry u nd hu).2.le

/-- The cleanup keeps the map consistent. -/
theorem Consistent.sweep {s s' : RTopology} {now next : AbsTime} (h : Consistent s.adjList)
    (hrun : s.removeOldNodes now = .ok (s', next)) : Consistent s'.adjList := by
  rcases removeOldNodes_cases h hrun with ⟨-, rfl⟩ | ⟨-, adj', hswept, rfl⟩
  · exact h
  · rw [sweptState_adjList]
    exact hswept.consistent

/-- The merge keeps the map consistent, by its specification. -/
theorem Consistent.mergeLinks {st : Station} {now newValidity : AbsTime} {s s' : RTopology}
    {p : BasePacket} {links : List LinkQuality} (h : Consistent s.adjList)
    (hmem : SrcPacket.getSrc p ∈ s.adjList) (hnew : AscendingLinks links)
    (hrun : s.mergeLinks st now newValidity p links = .ok s') : Consistent s'.adjList := by
  obtain ⟨ns, hns⟩ := (mem_iff_getElem? _ _).mp hmem
  exact (mergeLinks_spec hns h.ascending hnew hrun).1.consistent h hns hnew

/-- An event keeps the map consistent. -/
theorem Consistent.exec {st : Station} {e : Event} {s s' : RTopology}
    (h : Consistent s.adjList) (he : FeedsSized e) (hrun : s.exec st e = .ok s') :
    Consistent s'.adjList := by
  refine exec_keeps (P := fun s => Consistent s.adjList) ?_ ?_ ?_ ?_ ?_ ?_ ?_ h he hrun
  · exact fun s id h => h.getNodeEntry st e.now id
  · exact fun s p links s' h hmem _ hnew _ hrun => h.mergeLinks hmem hnew hrun
  · exact fun s s' next h hrun => h.sweep hrun
  · exact fun s adj h hrun => h.of_sameGraph (calcRoutes_sameGraph hrun)
  · exact fun t s _ h => Consistent.invalidate (s := { s with dirty := true }) h st t
  · exact fun s b h => h
  · exact fun s h => h

/-- Every run without a malformed packet keeps the map consistent. -/
theorem consistent_of_reachable {st : Station} {s : RTopology}
    (h : Reachable st (fun _ e => FeedsSized e) s) : Consistent s.adjList :=
  h.invariant (P := fun s => Consistent s.adjList) (consistent_init st)
    fun _ _ _ hs he hrun => hs.exec he hrun

/-- In every state of every run whose packets pass the size checks, the counterpart of a
link is its reverse link: a pointer that is set refers to the reverse link that is stored
now, whose counterpart is the link again, and a pointer that is null stands for a reverse
link that is not there. -/
theorem counterpart_invariant {st : Station} {s : RTopology}
    (h : Reachable st (fun _ e => FeedsSized e) s) {u : NodeId} {nd : NDescr} {i : Nat}
    {l : LinkQuality} (hu : s.adjList[u]? = some nd) (hi : nd.links[i]? = some l) :
    (∀ q, l.counterpart = some q → q.owner = l.neighbor ∧
      ∃ r, s.adjList.link? q = some r ∧ r.neighbor = u ∧
        r.counterpart = some ⟨u, nd.linklist.buf, i⟩) ∧
    (l.counterpart = none → ∀ r ∈ s.adjList.linksOf l.neighbor, r.neighbor ≠ u) := by
  have hc := consistent_of_reachable h
  have hl : l ∈ nd.links := List.mem_of_getElem? hi
  have hcp := hc.counterpart u nd hu l hl
  constructor
  · intro q hq
    rw [hq] at hcp
    obtain ⟨n, r, hn, hr, hru, hqeq⟩ := findLink_eq_some hc.ascending hcp.symm
    refine ⟨by rw [hqeq], r, ?_, hru, ?_⟩
    · rw [hqeq]
      exact link?_eq_some_iff.mpr ⟨n, hn, rfl, hr⟩
    · rw [hc.counterpart _ n hn r (List.mem_of_getElem? hr), hru, AdjList.findLink, hu]
      simp only [(findLinkQuality_eq_some_iff (hc.ascending u nd hu)).mpr ⟨l, hi, rfl⟩,
        Option.map_some]
  · intro hnone r hr hru
    rw [hnone] at hcp
    obtain ⟨n, hn, hr⟩ := getElem?_of_mem_linksOf hr
    exact no_link_of_findLink_eq_none hc.ascending hn hcp.symm r hr hru

/-! ### Concrete runs -/

/-- A topo packet of `src` with the given links and an empty name. -/
def topoOf (src : NodeId) (validity : Nat) (links : List (NodeId × UInt16)) : BasePacket :=
  let p := TopoPacket.setValidity (SrcPacket.setSrc BasePacket.new src) validity
  { p.write TopoPacket.offsetNumLinks (UInt8.ofNat links.length ::
      links.flatMap fun l => l.1.toArray ++ toBigEndian 2 l.2.toNat) with
    size := TopoPacket.offsetLinks + links.length * TopoPacket.linkSize + 1 }

/-- A sequence of events is a run. -/
theorem steps_of_events {st : Station} {ok : RTopology → Event → Prop} :
    ∀ (es : List Event) (s s' : RTopology), (∀ e ∈ es, ∀ s, ok s e) →
      es.foldlM (exec st) s = .ok s' → Relation.ReflTransGen (Step st ok) s s' := by
  intro es
  induction es with
  | nil =>
    intro s s' _ hs
    cases hs
    exact .refl
  | cons e es ih =>
    intro s s' hok hs
    rw [List.foldlM_cons, bind_eq_ok] at hs
    obtain ⟨s1, h1, hs⟩ := hs
    exact .head ⟨e, hok e List.mem_cons_self s, h1⟩
      (ih s1 s' (fun e he => hok e (List.mem_cons_of_mem _ he)) hs)

/-- Runs an event if it passes a test. -/
def execIf (st : Station) (test : RTopology → Event → Bool) (s : RTopology) (e : Event) :
    Result RTopology :=
  if test s e then s.exec st e else .error .assertion

/-- The same for a condition that depends on the state, with a test for it. -/
theorem steps_of_execIf {st : Station} {ok : RTopology → Event → Prop}
    {test : RTopology → Event → Bool} :
    ∀ (es : List Event) (s s' : RTopology), (∀ e ∈ es, ∀ s, test s e = true → ok s e) →
      es.foldlM (execIf st test) s = .ok s' → Relation.ReflTransGen (Step st ok) s s' := by
  intro es
  induction es with
  | nil =>
    intro s s' _ hs
    cases hs
    exact .refl
  | cons e es ih =>
    intro s s' hok hs
    rw [List.foldlM_cons, bind_eq_ok] at hs
    obtain ⟨s1, h1, hs⟩ := hs
    unfold execIf at h1
    split at h1
    · rename_i htest
      exact .head ⟨e, hok e List.mem_cons_self s htest, h1⟩
        (ih s1 s' (fun e he => hok e (List.mem_cons_of_mem _ he)) hs)
    · cases h1

/-- Station 1 hears of the link 1 → 2 from itself and of the link 2 → 1 from station 2. The
second packet is valid for a shorter time. -/
def mutualRun : List Event :=
  [⟨0, .feed (topoOf 1 9000 [(2, 10)])⟩, ⟨0, .feed (topoOf 2 5000 [(1, 20)])⟩]

/-- A test for `FeedsSized`. -/
def feedsSized (e : Event) : Bool :=
  match e.op with
  | .feed p => decide (SizeOk p)
  | _ => true

/-- The test on all events of a list. -/
theorem feedsSized_of_all {es : List Event} (h : es.all feedsSized = true) :
    ∀ e ∈ es, FeedsSized e := by
  intro e he p hp
  have := List.all_eq_true.mp h e he
  rwa [feedsSized, hp, decide_eq_true_eq] at this

/-- The packets of the run are long enough for what they announce. -/
theorem feedsSized_mutualRun : ∀ e ∈ mutualRun, FeedsSized e :=
  feedsSized_of_all (by decide +kernel)

/-- The two links of the run are each other's counterpart. -/
theorem counterpart_invariant_mutualRun :
    ∃ s nd l q r, Reachable (.hopCount 1) (fun _ e => FeedsSized e) s ∧
      s.adjList[(1 : NodeId)]? = some nd ∧ nd.links[0]? = some l ∧ l.counterpart = some q ∧
      q.owner = 2 ∧ s.adjList.link? q = some r ∧ r.counterpart = some ⟨1, nd.linklist.buf, 0⟩ := by
  obtain ⟨s, hs, htest⟩ := exists_of_test
    (mutualRun.foldlM (exec (.hopCount 1)) (init (.hopCount 1) 0))
    (fun s => s.adjList[(1 : NodeId)]?.any fun (nd : NDescr) =>
      nd.links[0]?.any fun (l : LinkQuality) =>
        l.counterpart.isSome && decide (l.neighbor = 2)) (by decide +kernel)
  have hreach : Reachable (.hopCount 1) (fun _ e => FeedsSized e) s :=
    ⟨0, steps_of_events mutualRun _ s (fun e he _ => feedsSized_mutualRun e he) hs⟩
  obtain ⟨nd, hnd, hlinks⟩ := (Option.any_eq_true _ _).mp htest
  obtain ⟨l, hl, hboth⟩ := (Option.any_eq_true _ _).mp hlinks
  simp only [Bool.and_eq_true, decide_eq_true_eq, Option.isSome_iff_exists] at hboth
  obtain ⟨⟨q, hq⟩, hn⟩ := hboth
  obtain ⟨howner, r, hr, -, hback⟩ := (counterpart_invariant hreach hnd hl).1 q hq
  exact ⟨s, nd, l, q, r, hreach, hnd, hl, hq, howner.trans hn, hr, hback⟩

end Awds.Proofs
