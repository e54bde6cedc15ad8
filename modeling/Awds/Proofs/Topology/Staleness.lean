import Awds.Proofs.Topology.Weights

/-!
# `Awds.Proofs.Topology.Staleness`: when the stored routes are those of the graph

`dirty` is false when the stored routes need not be computed again. It is raised by the
links that a packet adds, changes or removes, and by `reset`. It is not raised

* by the timer job, which drops nodes and link vectors,
* by a packet that is too short for its links, which leaves a vector of default links behind,
* by a packet without news that creates an entry (of its source, or of a neighbour that was
  dropped), or that changes a weight.

`KeepsFresh` excludes these steps, in terms of the state in front of the step. In a run
without them the routes are up to date whenever `dirty` is false, because the routes are a
function of the nodes, the links and the weights (`calcRoutes_congr`).
-/

set_option autoImplicit false

namespace Awds.NDescr

/-- The route to a node. -/
def route (nd : NDescr) : Nat × NodeId := (nd.distance, nd.nextHop)

end Awds.NDescr

namespace Awds.Proofs

open Std (ExtTreeMap)
open Awds.Lib Awds.AdjList Awds.RTopology

/-! ### Fresh routes -/

/-- The stored routes are those that `calcRoutes` computes. -/
def Fresh (st : Station) (adj : AdjList) : Prop :=
  ∃ adj', adj.calcRoutes st = .ok adj' ∧
    ∀ u : NodeId, adj'[u]?.map NDescr.route = adj[u]?.map NDescr.route

/-- The maps have the same nodes, weights and stored routes. -/
def SameRouting (a b : AdjList) : Prop :=
  ∀ u : NodeId, b[u]?.map (fun nd => (nd.weights, nd.route))
    = a[u]?.map fun nd => (nd.weights, nd.route)

section
variable {st : Station} {a b : AdjList}

/-- The same routing has the same weights. -/
theorem SameRouting.sameWeights (h : SameRouting a b) : SameWeights a b := by
  intro u
  have := congrArg (Option.map Prod.fst) (h u)
  rw [Option.map_map, Option.map_map] at this
  exact this.symm

/-- It has the same routes, too. -/
theorem SameRouting.route (h : SameRouting a b) (u : NodeId) :
    b[u]?.map NDescr.route = a[u]?.map NDescr.route := by
  have := congrArg (Option.map Prod.snd) (h u)
  rw [Option.map_map, Option.map_map] at this
  exact this

/-- Maps that agree have the same routes. -/
theorem Agree.route (h : Agree a b) (u : NodeId) :
    a[u]?.map NDescr.route = b[u]?.map NDescr.route := by
  rcases h.cases u with ⟨h1, h2⟩ | ⟨n, m, h1, h2, -, hd, hx, -⟩
  · rw [h1, h2]
  · simp only [h1, h2, Option.map_some, NDescr.route, hd, hx]

/-- What agrees with a result is a result. -/
theorem AgreeR.of_ok {x : Result AdjList} (h : AgreeR (.ok a) x) : ∃ b, x = .ok b ∧ Agree a b := by
  cases x with
  | error e => exact h.elim
  | ok b => exact ⟨b, rfl, h⟩

/-- The weights belong to the graph. -/
theorem SameGraph.sameWeights (h : SameGraph a b) : SameWeights a b := by
  intro u
  cases hb : b[u]? with
  | none =>
    have : a[u]? = none := by
      rw [← not_mem_iff_getElem?, ← h.mem_iff, not_mem_iff_getElem?]
      exact hb
    rw [this]
  | some nd =>
    obtain ⟨n, hn, hlist, -⟩ := h.entry hb
    simp only [hn, Option.map_some, NDescr.weights, NDescr.links, hlist]

/-- The routes are fresh right after they were computed. -/
theorem calcRoutes_fresh (h : a.calcRoutes st = .ok b) : Fresh st b := by
  have hagree := calcRoutes_congr st (calcRoutes_sameGraph h).sameWeights
  rw [h] at hagree
  obtain ⟨c, hc, hbc⟩ := hagree.of_ok
  exact ⟨c, hc, fun u => (hbc.route u).symm⟩

/-- The routes stay fresh when neither the graph nor the routes change. -/
theorem Fresh.congr (h : Fresh st a) (hab : SameRouting a b) : Fresh st b := by
  obtain ⟨a', ha, hroute⟩ := h
  have hagree := calcRoutes_congr st hab.sameWeights
  rw [ha] at hagree
  obtain ⟨b', hb, hab'⟩ := hagree.of_ok
  refine ⟨b', hb, fun u => ?_⟩
  rw [← hab'.route u, hroute u, hab.route u]

/-- A fresh next hop is a neighbour of the own node. -/
theorem Fresh.nextHop (h : Fresh st a) {u : NodeId} {nd : NDescr} (hu : a[u]? = some nd)
    (hne : nd.nextHop ≠ st.myNodeId) :
    ∃ l ∈ a.linksOf st.myNodeId, l.neighbor = nd.nextHop := by
  obtain ⟨a', ha, hroute⟩ := h
  have hr := hroute u
  rw [hu, Option.map_some, Option.map_eq_some_iff] at hr
  obtain ⟨n, hn, hnr⟩ := hr
  have hx : n.nextHop = nd.nextHop := congrArg Prod.snd hnr
  rw [← (calcRoutes_sameGraph ha).linksOf, ← hx]
  exact (calcRoutes_linked ha).nextHop u n hn (hx ▸ hne)

end

/-! ### Steps that keep the routes fresh -/

/-- What `feed` writes for a packet of `src` without news is there already: the entries of
the source and of its neighbours, and the weights of its links in both directions. -/
structure Settled (m : Metric) (adj : AdjList) (src : NodeId) : Prop where
  source : src ∈ adj
  neighbor : ∀ l ∈ adj.linksOf src, l.neighbor ∈ adj
  weight : ∀ l ∈ adj.linksOf src,
    linkWeight m l.quality (qualityAt adj l.neighbor src) = .ok l.metricWeight
  reverse : ∀ l ∈ adj.linksOf src, ∀ r ∈ adj.linksOf l.neighbor, r.neighbor = src →
    r.metricWeight = l.metricWeight

/-- A cleanup at the time `t` drops neither a node nor a link. -/
def DropsNothing (t : AbsTime) (adj : AdjList) : Prop :=
  ∀ (u : NodeId) (nd : NDescr), adj[u]? = some nd →
    t < nd.nodeValidity ∧ (nd.edgeValidity ≤ t → nd.links = [])

/-- The event raises `dirty` if it changes what the routes depend on. -/
def KeepsFresh (st : Station) (s : RTopology) (e : Event) : Prop :=
  match e.op with
  | .feed p => s.locked = true ∨ p.size < TopoPacket.offsetLinks + 1 ∨
      (SizeOk p ∧ (s.dirty = true ∨ hasNews s p = true ∨
        Settled st.metric s.adjList (SrcPacket.getSrc p)))
  | .cleanup => s.locked = true ∨ s.dirty = true ∨ DropsNothing e.now s.adjList
  | _ => True

section
variable {st : Station} {now newValidity : AbsTime} {src : NodeId} {s : RTopology}
  {adj : AdjList} {ns : NDescr} {links : List LinkQuality} {name : List UInt8}

/-- The weight that a link of a settled packet gets is the one that is stored. -/
theorem Settled.weightD_eq (h : Settled st.metric s.adjList src)
    (hs : s.adjList[src]? = some ns) (hshape : links.map shape = ns.links.map shape)
    {l r : LinkQuality} (hr : r ∈ ns.links) (hrl : shape r = shape l) :
    weightD st.metric (s.swapLinks src newValidity links).adjList src l = r.metricWeight := by
  have hquality : ∀ v x, qualityAt (s.swapLinks src newValidity links).adjList v x
      = qualityAt s.adjList v x := by
    intro v x
    by_cases hv : v = src
    · subst hv
      refine qualityAt_congr ?_ x
      rw [linksOf, swapLinks_lookup hs, if_pos rfl, linksOf_of_some hs]
      exact hshape
    · exact qualityAt_swapLinks hs hv x
  have hw := h.weight r (by rw [linksOf_of_some hs]; exact hr)
  have hnb : r.neighbor = l.neighbor := congrArg Prod.fst hrl
  have hq : r.quality = l.quality := congrArg Prod.snd hrl
  rw [hnb, hq, ← hquality, qualityAt] at hw
  rw [weightD, weightOf, hw]

/-- A settled packet without news changes nothing that the routes depend on. -/
theorem Merged.sameRouting (hset : Settled st.metric s.adjList src)
    (hs : s.adjList[src]? = some ns) (hshape : links.map shape = ns.links.map shape)
    (h : Merged st now newValidity src (s.swapLinks src newValidity links).adjList
      (swappedEntry s newValidity links ns) ns.links name adj) :
    SameRouting s.adjList adj := by
  intro u
  -- The source: its new links have the shapes and so the weights of the old ones.
  by_cases hu : u = src
  · subst hu
    rw [h.source, hs, Option.map_some, Option.map_some, Option.some.injEq, Prod.mk.injEq]
    refine ⟨?_, by simp [NDescr.route, NDescr.mapLinks, swappedEntry, NDescr.updateNodeValidity_eq]⟩
    simp only [NDescr.weights, NDescr.links, NDescr.mapLinks, List.map_map]
    refine map_eq_map_of_key hshape fun l _ r hr hlr => ?_
    rw [Prod.mk.injEq, ← hset.weightD_eq hs hshape hr hlr.symm]
    exact ⟨congrArg Prod.fst hlr, rfl⟩
  · rcases h.cases hu with ⟨l, hl, rfl, heq⟩ | ⟨hgone, ⟨r, hr, rfl⟩, -⟩ | ⟨-, -, heq⟩
    · -- A neighbour that is listed still: it was listed before, so it has an entry.
      obtain ⟨r, hr, hrl⟩ := List.mem_map.mp (hshape ▸ List.mem_map_of_mem (f := shape) hl)
      have hnb : r.neighbor = l.neighbor := congrArg Prod.fst hrl
      have hr' : r ∈ s.adjList.linksOf src := by
        rw [linksOf_of_some hs]
        exact hr
      obtain ⟨nv, hnv⟩ := (mem_iff_getElem? _ _).mp (hset.neighbor r hr')
      rw [hnb] at hnv
      have hent : entryOf st now (s.swapLinks src newValidity links).adjList l.neighbor = nv := by
        rw [entryOf_swapLinks hs hu, entryOf_of_some hnv]
      rw [heq, hnv, Option.map_some, Option.map_some, Option.some.injEq, Prod.mk.injEq]
      refine ⟨?_, ?_⟩
      · simp only [NDescr.weights, attachedEntry, NDescr.mapLink, NDescr.links, raisedEntry,
          NDescr.linklist_updateNodeValidity, hent, List.map_map]
        refine List.map_congr_left fun x hx => ?_
        simp only [Function.comp_apply]
        split
        · -- the reverse link gets the weight it has already
          rename_i hxs
          have hback := hset.reverse r hr' x (by rw [hnb, linksOf_of_some hnv]; exact hx) hxs
          rw [hback, ← hset.weightD_eq hs hshape hr hrl]
          rfl
        · rfl
      · simp only [NDescr.route, attachedEntry, NDescr.mapLink, raisedEntry,
          NDescr.updateNodeValidity_eq, hent]
    · -- No neighbour is gone, because the shapes are the same.
      obtain ⟨l, hl, hlr⟩ := List.mem_map.mp (hshape.symm ▸ List.mem_map_of_mem (f := shape) hr)
      exact absurd (congrArg Prod.fst hlr) (hgone l hl)
    · -- Any other entry is the old one.
      rw [heq, swapLinks_lookup hs, if_neg hu]

end

section
variable {st : Station} {now : AbsTime} {s s1 s' : RTopology} {p : BasePacket} {ns : NDescr}

/-- A packet without news changes no weight and no route, if what it writes is there already. -/
theorem Fed.sameRouting (hf : Fed st now s p ns s1) (hnews : hasNews s p = false)
    (hset : Settled st.metric s.adjList (SrcPacket.getSrc p)) :
    SameRouting s.adjList s1.adjList := by
  have hself : s.getNodeEntry st now (SrcPacket.getSrc p) = s := if_pos hset.source
  have hs := hf.lookup
  have hmerged := hf.merged
  rw [hself] at hs hmerged
  refine hmerged.sameRouting hset hs ?_
  rw [← linksOf_of_some hs]
  simpa [hasNews] using hnews

/-- A cleanup that drops nothing changes nothing that the routes depend on. -/
theorem Swept.sameRouting {t : AbsTime} {adj adj' : AdjList} (h : Swept t adj adj')
    (hnone : DropsNothing t adj) : SameRouting adj adj' := by
  intro u
  rw [h.entry]
  cases hu : adj[u]? with
  | none => rfl
  | some nd =>
    obtain ⟨hnode, hedge⟩ := hnone u nd hu
    rw [Option.bind_some, survivingEntry, if_neg hnode.not_ge]
    split
    · rename_i hexp
      rw [Option.map_some, Option.map_some, Option.some.injEq, Prod.mk.injEq]
      refine ⟨?_, rfl⟩
      rw [NDescr.weights, NDescr.weights, hedge hexp]
      rfl
    · rw [Option.map_some, Option.map_some, Option.some.injEq, Prod.mk.injEq]
      refine ⟨?_, rfl⟩
      simp only [NDescr.weights, NDescr.links, NDescr.mapLinks, List.map_map]
      refine List.map_congr_left fun l _ => ?_
      simp only [Function.comp_apply, survivingLink]
      split <;> rfl

/-- `updateTopology` ends with `calcRoutes`, so the routes are fresh behind it. -/
theorem updateTopology_fresh (h : s.updateTopology st now = .ok s') : Fresh st s'.adjList := by
  obtain ⟨⟨s1, next⟩, -, h⟩ := bind_eq_ok.mp h
  obtain ⟨adj, h2, h⟩ := bind_eq_ok.mp h
  cases h
  exact calcRoutes_fresh h2

end

/-! ### Every run -/

/-- The map is consistent, and the routes are fresh unless they are to be computed. -/
structure UpToDate (st : Station) (s : RTopology) : Prop where
  consistent : Consistent s.adjList
  fresh : s.dirty = false → Fresh st s.adjList

/-- A packet with news raises `dirty`. Without news it writes what was there, if the state was
settled. -/
theorem UpToDate.feed {st : Station} {now : AbsTime} {s s' : RTopology} {p : BasePacket}
    (h : UpToDate st s) (hk : KeepsFresh st s ⟨now, .feed p⟩) (hrun : s.feed st now p = .ok s') :
    UpToDate st s' := by
  -- A locked topology ignores the packet.
  by_cases hlocked : s.locked = true
  · rw [RTopology.feed, if_pos hlocked] at hrun
    cases hrun
    exact h
  · -- A packet without room for a link is ignored.
    by_cases hsmall : p.size < TopoPacket.offsetLinks + 1
    · rw [RTopology.feed, if_neg hlocked, if_pos hsmall] at hrun
      cases hrun
      exact h
    · obtain ⟨hp, hk⟩ := (hk.resolve_left hlocked).resolve_left hsmall
      obtain ⟨ns, s1, hf, hend⟩ := Fed.of_feed h.consistent hp (by simpa using hlocked) hrun
      refine ⟨h.consistent.exec (e := ⟨now, .feed p⟩) (fun q hq => by cases hq; exact hp) hrun,
        fun _ => ?_⟩
      -- The routes were computed again, or the packet has brought nothing new.
      by_cases hdirty : s1.dirty = true
      · rw [if_pos hdirty] at hend
        exact updateTopology_fresh hend
      · rw [if_neg hdirty] at hend
        cases hend
        rw [hf.dirty] at hdirty
        simp only [Bool.or_eq_true, not_or, Bool.not_eq_true] at hdirty
        obtain ⟨hclean, hnews⟩ := hdirty
        have hset : Settled st.metric s.adjList (SrcPacket.getSrc p) := by
          simpa [hclean, hnews] using hk
        exact (h.fresh hclean).congr (hf.sameRouting hnews hset)

/-- Every event keeps the routes fresh, or leaves `dirty` raised. The cases are the operations. -/
theorem UpToDate.exec {st : Station} {e : Event} {s s' : RTopology} (h : UpToDate st s)
    (hk : KeepsFresh st s e) (hrun : s.exec st e = .ok s') : UpToDate st s' := by
  obtain ⟨now, op⟩ := e
  cases op with
  | feed p => exact h.feed hk hrun
  | cleanup =>
    refine ⟨h.consistent.exec (e := ⟨now, .cleanup⟩) (fun _ hq => by cases hq) hrun,
      fun hclean => ?_⟩
    obtain ⟨⟨s1, next⟩, h1, hrun⟩ := bind_eq_ok.mp hrun
    cases hrun
    rcases removeOldNodes_cases h.consistent h1 with ⟨-, rfl⟩ | ⟨hlocked, adj', hswept, rfl⟩
    · exact h.fresh hclean
    · have hdirty : s.dirty = false := by
        have := (sweptState_frame now s adj').dirty
        rw [hclean] at this
        simpa using this.symm
      rw [sweptState_adjList]
      refine (h.fresh hdirty).congr (hswept.sameRouting ?_)
      have hk : s.locked = true ∨ s.dirty = true ∨ DropsNothing now s.adjList := hk
      simpa [hlocked, hdirty] using hk
  | reset t =>
    refine ⟨h.consistent.exec (e := ⟨now, .reset t⟩) (fun _ hq => by cases hq) hrun,
      fun hclean => ?_⟩
    -- `reset` raises the flag
    obtain ⟨⟨s1, next⟩, h1, hrun⟩ := bind_eq_ok.mp hrun
    cases hrun
    have hc : Consistent (invalidate st t { s with dirty := true }).adjList :=
      Consistent.invalidate (s := { s with dirty := true }) h.consistent st t
    rcases removeOldNodes_cases hc h1 with ⟨-, rfl⟩ | ⟨-, adj', -, rfl⟩
    · cases hclean
    · have := (sweptState_frame now (invalidate st t { s with dirty := true }) adj').dirty
      rw [hclean] at this
      cases this
  | setLocked b =>
    cases hrun
    exact ⟨h.consistent, h.fresh⟩
  | getNextHop dest =>
    refine ⟨h.consistent.exec (e := ⟨now, .getNextHop dest⟩) (fun _ hq => by cases hq) hrun,
      fun hclean => ?_⟩
    obtain ⟨⟨s1, r⟩, h1, hrun⟩ := bind_eq_ok.mp hrun
    cases hrun
    rcases (getNextHop_spec h1).2 with ⟨-, h2⟩ | ⟨hdirty, rfl⟩
    · exact updateTopology_fresh h2
    · exact h.fresh hdirty
  | watch =>
    cases hrun
    exact ⟨h.consistent, h.fresh⟩

/-- The next hop that `getNextHop` finds is stored in the entry of the destination. -/
theorem getNextHop_found {st : Station} {now : AbsTime} {s s' : RTopology} {dest hop : NodeId}
    (h : s.getNextHop st now dest = .ok (s', hop, true)) :
    ∃ nd, s'.adjList[dest]? = some nd ∧ nd.nextHop = hop ∧ nd.nextHop ≠ st.myNodeId := by
  have hr := (getNextHop_spec h).1
  unfold storedHop at hr
  split at hr
  · cases hr
  · rename_i nd hnd
    obtain ⟨hhop, hne⟩ := Prod.mk.inj hr
    exact ⟨nd, hnd, hhop.symm, of_decide_eq_true hne.symm⟩

/-- A next hop that `getNextHop` finds is a neighbour of the own node. -/
theorem getNextHop_neighbor {st : Station} {now : AbsTime} {s s' : RTopology}
    {dest hop : NodeId} (h : s.dirty = false → Fresh st s.adjList)
    (hrun : s.getNextHop st now dest = .ok (s', hop, true)) :
    ∃ l ∈ s'.adjList.linksOf st.myNodeId, l.neighbor = hop := by
  have hfresh : Fresh st s'.adjList := by
    rcases (getNextHop_spec hrun).2 with ⟨-, h2⟩ | ⟨hdirty, rfl⟩
    · exact updateTopology_fresh h2
    · exact h hdirty
  obtain ⟨nd, hnd, rfl, hne⟩ := getNextHop_found hrun
  exact hfresh.nextHop hnd hne

/-- In every run whose steps keep the routes fresh, the stored routes are those of the
graph whenever `dirty` is false, and every next hop that is found is a neighbour. -/
theorem routes_fresh {st : Station} {s : RTopology} (h : Reachable st (KeepsFresh st) s) :
    (s.dirty = false → Fresh st s.adjList) ∧
    ∀ now dest s' hop, s.getNextHop st now dest = .ok (s', hop, true) →
      ∃ l ∈ s'.adjList.linksOf st.myNodeId, l.neighbor = hop := by
  have hinv : UpToDate st s :=
    h.invariant (P := UpToDate st) (fun t => ⟨consistent_init st t, fun h => by cases h⟩)
      fun _ _ _ hs hk hrun => hs.exec hk hrun
  exact ⟨hinv.fresh, fun _ _ _ _ hrun => getNextHop_neighbor hinv.fresh hrun⟩

/-- Whether an event feeds a packet with news. -/
def bringsNews (s : RTopology) (e : Event) : Bool :=
  match e.op with
  | .feed p => decide (SizeOk p) && hasNews s p
  | _ => false

/-- In the run of two packets with news, the next hop to station 2 is station 2. -/
theorem routes_fresh_mutualRun :
    ∃ s s' l, Reachable (.hopCount 1) (KeepsFresh (.hopCount 1)) s ∧ s.dirty = false ∧
      Fresh (.hopCount 1) s.adjList ∧
      s.getNextHop (.hopCount 1) 0 2 = .ok (s', 2, true) ∧
      l ∈ s'.adjList.linksOf 1 ∧ l.neighbor = 2 := by
  -- The run feeds two packets, and each of them brings news.
  obtain ⟨s, hs, htest⟩ := exists_of_test
    (mutualRun.foldlM (execIf (.hopCount 1) bringsNews) (init (.hopCount 1) 0))
    (fun s => !s.dirty && returnsWith (s.getNextHop (.hopCount 1) 0 2) fun x =>
      decide (x.2.1 = 2) && x.2.2) (by decide +kernel)
  have hreach : Reachable (.hopCount 1) (KeepsFresh (.hopCount 1)) s := by
    refine ⟨0, steps_of_execIf mutualRun _ s (fun e _ s htest => ?_) hs⟩
    obtain ⟨now, op⟩ := e
    cases op with
    | feed p =>
      simp only [bringsNews, Bool.and_eq_true, decide_eq_true_eq] at htest
      exact .inr (.inr ⟨htest.1, .inr (.inl htest.2)⟩)
    | _ => simp [bringsNews] at htest
  obtain ⟨hdirty, htest⟩ := Bool.and_eq_true_iff.mp htest
  have hdirty : s.dirty = false := by simpa using hdirty
  -- The route is asked for, and its answer is a link.
  obtain ⟨⟨s', hop, found⟩, hget, hanswer⟩ := exists_of_returnsWith htest
  simp only [Bool.and_eq_true, decide_eq_true_eq] at hanswer
  obtain ⟨rfl, rfl⟩ := hanswer
  obtain ⟨hfresh, hhop⟩ := routes_fresh hreach
  obtain ⟨l, hl, hl2⟩ := hhop 0 2 s' 2 hget
  exact ⟨s, s', l, hreach, hdirty, hfresh hdirty, hget, hl, hl2⟩

/-- The links of station 1 expire while station 2 lives on. -/
def timerRun : List Event :=
  [⟨0, .feed (topoOf 1 1000 [(2, 10)])⟩, ⟨0, .feed (topoOf 2 9000 [])⟩,
    ⟨2000000000, .cleanup⟩]

/-- The timer job drops the only link to station 2. The flag is not raised, the route to
station 2 stays, and `getNextHop` returns station 2, which is no neighbour. -/
theorem routes_stale_timerRun :
    ∃ s s' hop, Reachable (.hopCount 1) (fun _ _ => True) s ∧ s.dirty = false ∧
      ¬ Fresh (.hopCount 1) s.adjList ∧
      s.getNextHop (.hopCount 1) 2000000000 2 = .ok (s', hop, true) ∧
      ∀ l ∈ s'.adjList.linksOf 1, l.neighbor ≠ hop := by
  obtain ⟨s, hs, htest⟩ := exists_of_test
    (timerRun.foldlM (exec (.hopCount 1)) (init (.hopCount 1) 0))
    (fun s => !s.dirty && returnsWith (s.getNextHop (.hopCount 1) 2000000000 2) fun x =>
      x.2.2 && (x.1.adjList.linksOf 1).isEmpty) (by decide +kernel)
  obtain ⟨hdirty, htest⟩ := Bool.and_eq_true_iff.mp htest
  obtain ⟨⟨s', hop, found⟩, hget, hanswer⟩ := exists_of_returnsWith htest
  simp only [Bool.and_eq_true, List.isEmpty_iff] at hanswer
  obtain ⟨rfl, hempty⟩ := hanswer
  have hno : ∀ l ∈ s'.adjList.linksOf 1, l.neighbor ≠ hop := by
    rw [hempty]
    exact fun _ hl => by cases hl
  refine ⟨s, s', hop, ⟨0, steps_of_events timerRun _ s (fun _ _ _ => trivial) hs⟩,
    by simpa using hdirty, fun hfresh => ?_, hget, hno⟩
  obtain ⟨l, hl, hlhop⟩ := getNextHop_neighbor (fun _ => hfresh) hget
  exact hno l hl hlhop

end Awds.Proofs
