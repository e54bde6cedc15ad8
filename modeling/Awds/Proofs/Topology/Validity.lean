import Awds.Proofs.Topology.Counterparts

/-!
# `Awds.Proofs.Topology.Validity`: what expires, and when

A node has two clocks. `edgeValidity` is set by its own packets, `nodeValidity` is raised
by its own packets and by those of the nodes that list it. `Anchored` is the relation
between the two that the cleanup rests on: the target of a link lives at least as long as
the links of its owner. Together with `Consistent` it makes the pass of `removeOldNodes`
exact, although it erases nodes while it still visits others.

`reset` breaks the relation, so the runs here are those without it. The times of the
events may be any.
-/

set_option autoImplicit false

namespace Awds.Proofs

open Std (ExtTreeMap)
open Awds.Lib Awds.AdjList Awds.RTopology

/-- The target of a link is a node that lives at least as long as the links of the owner. -/
def Anchored (adj : AdjList) : Prop :=
  ∀ (u : NodeId) (nd : NDescr), adj[u]? = some nd → ∀ l ∈ nd.links,
    ∃ target, adj[l.neighbor]? = some target ∧ nd.edgeValidity ≤ target.nodeValidity

/-- The event is no `reset`. -/
def NoReset (e : Event) : Prop := ∀ t, e.op ≠ .reset t

/-! ### The pieces of an event -/

/-- A new entry has no links, and a node that is there keeps its validity. -/
theorem Anchored.insert_entryOf {adj : AdjList} (h : Anchored adj) (st : Station)
    (now : AbsTime) (id : NodeId) : Anchored (adj.insert id (entryOf st now adj id)) := by
  have hkeep : ∀ (v : NodeId) (nd : NDescr), adj[v]? = some nd →
      (adj.insert id (entryOf st now adj id))[v]? = some nd := by
    intro v nd hv
    rw [getElem?_insertAt]
    split
    · rename_i hid
      subst hid
      rw [entryOf_of_some hv]
    · exact hv
  intro u nd hu l hl
  have hbefore : adj[u]? = some nd := by
    rw [getElem?_insertAt] at hu
    split at hu
    · rename_i hid
      subst hid
      rw [Option.some.injEq] at hu
      rw [← hu] at hl ⊢
      exact getElem?_of_mem_links hl
    · exact hu
  obtain ⟨target, ht, hle⟩ := h u nd hbefore l hl
  exact ⟨target, hkeep _ _ ht, hle⟩

/-- The validities belong to the graph. -/
theorem Anchored.of_sameGraph {adj adj' : AdjList} (h : Anchored adj)
    (hs : SameGraph adj adj') : Anchored adj' := by
  intro u nd hu l hl
  obtain ⟨n, hn, hlist, hedge, -⟩ := hs.entry hu
  obtain ⟨target, ht, hle⟩ := h u n hn l (by rwa [NDescr.links, hlist])
  obtain ⟨t', ht', -, -, hnode⟩ := hs.symm.entry ht
  exact ⟨t', ht', by rw [hnode, ← hedge]; exact hle⟩

section
variable {st : Station} {now newValidity : AbsTime} {src : NodeId} {s : RTopology}
  {adj : AdjList} {ns : NDescr} {links : List LinkQuality} {name : List UInt8}

/-- Behind the merge every node lives at least as long as before. -/
theorem Merged.lives (hs : s.adjList[src]? = some ns) (hnew : AscendingLinks links)
    (h : Merged st now newValidity src (s.swapLinks src newValidity links).adjList
      (swappedEntry s newValidity links ns) ns.links name adj)
    {v : NodeId} {nd : NDescr} (hv : s.adjList[v]? = some nd) :
    ∃ nd', adj[v]? = some nd' ∧ nd.nodeValidity ≤ nd'.nodeValidity := by
  have hsrc : (s.swapLinks src newValidity links).adjList[src]?
      = some (swappedEntry s newValidity links ns) := by
    rw [swapLinks_lookup hs, if_pos rfl]
  -- The source has the later of the two validities.
  by_cases hvs : v = src
  · subst hvs
    rw [hs, Option.some.injEq] at hv
    subst hv
    refine ⟨_, h.source, ?_⟩
    simp only [NDescr.mapLinks, swappedEntry, NDescr.nodeValidity_updateNodeValidity]
    exact le_max_left _ _
  · -- Another entry is never removed, and its validity only grows.
    cases hnd : adj[v]? with
    | none =>
      rcases h.cases hvs with ⟨l, -, -, heq⟩ | ⟨-, -, heq⟩ | ⟨-, -, heq⟩
      · simp [hnd] at heq
      · simp [hnd] at heq
      · rw [hnd, swapLinks_lookup hs, if_neg hvs, hv] at heq
        cases heq
    | some nd' =>
      obtain ⟨f, ht, -⟩ := h.touched hsrc hnew hvs hnd
      rw [entryOf_swapLinks hs hvs, entryOf_of_some hv] at ht
      exact ⟨nd', rfl, ht.nodeValidity⟩

/-- The merge keeps the targets alive. -/
theorem Merged.anchored (hc : Anchored s.adjList) (hs : s.adjList[src]? = some ns)
    (hnew : AscendingLinks links)
    (h : Merged st now newValidity src (s.swapLinks src newValidity links).adjList
      (swappedEntry s newValidity links ns) ns.links name adj) : Anchored adj := by
  have hsrc : (s.swapLinks src newValidity links).adjList[src]?
      = some (swappedEntry s newValidity links ns) := by
    rw [swapLinks_lookup hs, if_pos rfl]
  intro u nd hu l hl
  by_cases hus : u = src
  · -- a new link of the source: its target was raised to the new validity
    subst hus
    rw [h.source, Option.some.injEq] at hu
    subst hu
    obtain ⟨r, hr, rfl⟩ := List.mem_map.mp hl
    by_cases hru : r.neighbor = u
    · have hself : (mergedLink st.metric (s.swapLinks u newValidity links).adjList u r).neighbor
          = u := hru
      rw [hself]
      refine ⟨_, h.source, ?_⟩
      simp only [NDescr.mapLinks, swappedEntry, NDescr.nodeValidity_updateNodeValidity]
      exact le_max_right _ _
    · refine ⟨_, h.attached r hr hru, ?_⟩
      simp only [NDescr.mapLinks, swappedEntry, attachedEntry, NDescr.mapLink, raisedEntry,
        NDescr.nodeValidity_updateNodeValidity]
      exact le_max_right _ _
  · -- A link of another node: its target lived long enough before, and it still does.
    obtain ⟨f, ht, -⟩ := h.touched hsrc hnew hus hu
    rw [entryOf_swapLinks hs hus] at ht
    rw [NDescr.links, ht.linklist] at hl
    obtain ⟨r, hr, rfl⟩ := List.mem_map.mp hl
    have hn : (if r.neighbor = src then f r else r).neighbor = r.neighbor := by
      split
      · exact ht.neighbor r
      · rfl
    obtain ⟨target, htarget, hle⟩ := hc u _ (getElem?_of_mem_links hr) r hr
    rw [hn, ht.edgeValidity]
    obtain ⟨t', ht', hlive⟩ := Merged.lives hs hnew h htarget
    exact ⟨t', ht', hle.trans hlive⟩

end

/-! ### The cleanup -/

/-- Losing the counterpart changes neither the neighbour nor the quality. -/
theorem shape_survivingLink (t : AbsTime) (adj : AdjList) (l : LinkQuality) :
    shape (survivingLink t adj l) = shape l := by
  unfold survivingLink
  split <;> rfl

section
variable {t : AbsTime} {adj adj' : AdjList}

/-- The nodes that are left are those that have not expired. -/
theorem Swept.mem_iff (h : Swept t adj adj') (u : NodeId) :
    u ∈ adj' ↔ ∃ nd, adj[u]? = some nd ∧ t < nd.nodeValidity := by
  rw [mem_iff_getElem?, h.entry]
  cases hu : adj[u]? with
  | none => simp
  | some nd =>
    simp only [Option.bind_some, survivingEntry, Option.some.injEq, exists_eq_left']
    by_cases hnode : nd.nodeValidity ≤ t
    · simp [hnode]
    · by_cases hedge : nd.edgeValidity ≤ t <;> simp [hnode, hedge, not_le.mp hnode]

/-- The link vectors that are left are those that have not expired. -/
theorem Swept.links (h : Swept t adj adj') {u : NodeId} {nd' : NDescr}
    (hu : adj'[u]? = some nd') :
    ∃ nd, adj[u]? = some nd ∧ nd'.edgeValidity = nd.edgeValidity ∧
      nd'.nodeValidity = nd.nodeValidity ∧ nd'.linklist.buf = nd.linklist.buf ∧
      nd'.links = if nd.edgeValidity ≤ t then [] else nd.links.map (survivingLink t adj) := by
  rw [h.entry, Option.bind_eq_some_iff] at hu
  obtain ⟨nd, hnd, hsurv⟩ := hu
  refine ⟨nd, hnd, ?_⟩
  unfold survivingEntry at hsurv
  split at hsurv
  · cases hsurv
  · split at hsurv
    · rename_i hedge
      cases hsurv
      exact ⟨rfl, rfl, rfl, by rw [if_pos hedge]; rfl⟩
    · rename_i hedge
      cases hsurv
      exact ⟨rfl, rfl, rfl, by rw [if_neg hedge]; rfl⟩

/-- The pass keeps the targets of the links that are left. -/
theorem Swept.anchored (h : Swept t adj adj') (ha : Anchored adj) : Anchored adj' := by
  intro u nd' hu l hl
  obtain ⟨nd, hnd, hedge, -, -, hlinks⟩ := h.links hu
  rw [hlinks] at hl
  split at hl
  · cases hl
  · rename_i hexp
    obtain ⟨r, hr, rfl⟩ := List.mem_map.mp hl
    have hn : (survivingLink t adj r).neighbor = r.neighbor :=
      congrArg Prod.fst (shape_survivingLink t adj r)
    obtain ⟨target, htarget, hle⟩ := ha u nd hnd r hr
    have hmem : r.neighbor ∈ adj' :=
      (h.mem_iff _).mpr ⟨target, htarget, lt_of_lt_of_le (not_le.mp hexp) hle⟩
    obtain ⟨target', ht'⟩ := (mem_iff_getElem? _ _).mp hmem
    obtain ⟨n, hn', -, hnode, -⟩ := h.links ht'
    rw [htarget, Option.some.injEq] at hn'
    subst hn'
    rw [hn, hedge]
    exact ⟨target', ht', hnode ▸ hle⟩

end

/-! ### Every run -/

/-- What holds in every state of a run without `reset`. -/
structure Lively (adj : AdjList) : Prop where
  consistent : Consistent adj
  anchored : Anchored adj

/-- At the start there are no links. -/
theorem lively_init (st : Station) (t : AbsTime) : Lively (init st t).adjList where
  consistent := consistent_init st t
  anchored := by
    intro u nd hu l hl
    rw [init, getElem?_insertAt] at hu
    split at hu
    · cases hu
      cases hl
    · simp at hu

/-- An event other than `reset` keeps the targets alive. -/
theorem Lively.exec {st : Station} {e : Event} {s s' : RTopology} (h : Lively s.adjList)
    (he : FeedsSized e) (hr : NoReset e) (hrun : s.exec st e = .ok s') : Lively s'.adjList := by
  refine exec_keeps (P := fun s => Lively s.adjList) ?_ ?_ ?_ ?_ ?_ ?_ ?_ h he hrun
  · intro s id h
    refine ⟨h.consistent.getNodeEntry st e.now id, ?_⟩
    rw [getNodeEntry_adjList]
    exact h.anchored.insert_entryOf st e.now id
  · intro s p links s' h hmem _ hnew _ hrun
    obtain ⟨ns, hns⟩ := (mem_iff_getElem? _ _).mp hmem
    have hmerged := (mergeLinks_spec hns h.consistent.ascending hnew hrun).1
    exact ⟨hmerged.consistent h.consistent hns hnew, hmerged.anchored h.anchored hns hnew⟩
  · intro s s' next h hrun
    rcases removeOldNodes_cases h.consistent hrun with ⟨-, rfl⟩ | ⟨-, adj', hswept, rfl⟩
    · exact h
    · rw [sweptState_adjList]
      exact ⟨hswept.consistent, hswept.anchored h.anchored⟩
  · intro s adj h hrun
    have hsame := calcRoutes_sameGraph hrun
    exact ⟨h.consistent.of_sameGraph hsame, h.anchored.of_sameGraph hsame⟩
  · exact fun t s ht => absurd ht (hr t)
  · exact fun s b h => h
  · exact fun s h => h

/-- A turn of the pass has cleared the links of a node when it erases the node. -/
theorem dropEdges_of_nodeExpired {t : AbsTime} {w w' : Sweep} {id : NodeId} {nd : NDescr}
    (hc : Consistent w.adj) (hid : w.adj[id]? = some nd) (hnode : nd.nodeValidity ≤ t)
    (h : w.dropEdges t id nd = .ok w') : w'.adj.linksOf id = [] := by
  have hedge : nd.edgeValidity ≤ t := (hc.validity id nd hid).trans hnode
  obtain ⟨adj', hrun, inv⟩ := removeReferences_run hc hid nd.links.length le_rfl
  rw [Sweep.dropEdges, if_pos hedge, hrun, except_bind_ok] at h
  cases h
  obtain ⟨nd', hnd', -⟩ := inv.own
  simp [linksOf, hnd', NDescr.links]

/-- In every state of a run without `reset`, a node lives as long as its links and as the
links to it. So a pass of the cleanup at any time `t` removes exactly the nodes and the
link vectors that have expired, erases no node that still has links, and leaves no link to
a node that is gone. -/
theorem expiry_exact {st : Station} {s : RTopology}
    (h : Reachable st (fun _ e => FeedsSized e ∧ NoReset e) s) :
    (∀ (u : NodeId) (nd : NDescr), s.adjList[u]? = some nd →
      nd.edgeValidity ≤ nd.nodeValidity ∧ ∀ l ∈ nd.links, ∃ target,
        s.adjList[l.neighbor]? = some target ∧ nd.edgeValidity ≤ target.nodeValidity) ∧
    ∀ t, s.locked = false →
      (s.adjList.isEmpty = false → ∃ r, s.removeOldNodes t = .ok r) ∧
      (∀ s' next, s.removeOldNodes t = .ok (s', next) →
        (∀ u, u ∈ s'.adjList ↔ ∃ nd, s.adjList[u]? = some nd ∧ t < nd.nodeValidity) ∧
        (∀ (u : NodeId) (nd' : NDescr), s'.adjList[u]? = some nd' → ∃ nd, s.adjList[u]? = some nd ∧
          nd'.links.map shape = if nd.edgeValidity ≤ t then [] else nd.links.map shape) ∧
        ∀ u, ∀ l ∈ s'.adjList.linksOf u, l.neighbor ∈ s'.adjList) ∧
      ∀ done id rest w w' nd, s.adjList.keys = done ++ id :: rest →
        done.foldlM (Sweep.visit t)
          { adj := s.adjList, nextTimeout := t + maxCleanupDelay } = .ok w →
        w.adj[id]? = some nd → w.dropEdges t id nd = .ok w' →
        nd.nodeValidity ≤ t → w'.adj.linksOf id = [] := by
  -- `Lively` is the invariant of the run. The rest is about a single pass in such a state.
  have hl : Lively s.adjList :=
    h.invariant (P := fun s => Lively s.adjList) (lively_init st)
      fun _ _ _ hs he hrun => hs.exec he.1 he.2 hrun
  refine ⟨fun u nd hu => ⟨hl.consistent.validity u nd hu, hl.anchored u nd hu⟩, ?_⟩
  intro t hlocked
  refine ⟨fun hne => ?_, fun s' next hrun => ?_, ?_⟩
  · obtain ⟨adj', next, -, hrun⟩ := removeOldNodes_run t hl.consistent hne hlocked
    exact ⟨_, hrun⟩
  · rcases removeOldNodes_cases hl.consistent hrun with ⟨hlock, -⟩ | ⟨-, adj', hswept, rfl⟩
    · rw [hlocked] at hlock
      cases hlock
    · rw [sweptState_adjList]
      refine ⟨hswept.mem_iff, fun u nd' hu => ?_, fun u l hlu => ?_⟩
      · obtain ⟨nd, hnd, -, -, -, hlinks⟩ := hswept.links hu
        refine ⟨nd, hnd, ?_⟩
        rw [hlinks]
        split
        · rfl
        · rw [List.map_map]
          exact List.map_congr_left fun l _ => shape_survivingLink t s.adjList l
      · obtain ⟨nd', hu, hlu⟩ := getElem?_of_mem_linksOf hlu
        obtain ⟨target, ht, -⟩ := hswept.anchored hl.anchored u nd' hu l hlu
        exact (mem_iff_getElem? _ _).mpr ⟨target, ht⟩
  · intro done id rest w w' nd hkeys hpass hid hdrop hnode
    -- The pass has come to `id`, and what it has left so far is described by `SweepInv`.
    have hnd : done.Nodup := by
      have : s.adjList.keys.Nodup := ExtTreeMap.nodup_keys
      rw [hkeys] at this
      exact (List.nodup_append.mp this).1
    obtain ⟨w0, hrun, inv⟩ := SweepInv.pass (t := t) done [] _
      (SweepInv.start hl.consistent (t + maxCleanupDelay)) (by simpa using hnd)
    rw [hpass] at hrun
    cases hrun
    exact dropEdges_of_nodeExpired inv.consistent hid hnode hdrop

/-- After six seconds the links of station 2 have expired and station 2 has not. -/
theorem expiry_exact_mutualRun :
    ∃ s s' next nd', Reachable (.hopCount 1) (fun _ e => FeedsSized e ∧ NoReset e) s ∧
      s.removeOldNodes 6000000000 = .ok (s', next) ∧ s'.adjList[(2 : NodeId)]? = some nd' ∧
      nd'.links.map shape = [] := by
  -- The run is computed up to the time between the two validities.
  obtain ⟨s, hs, htest⟩ := exists_of_test
    (mutualRun.foldlM (exec (.hopCount 1)) (init (.hopCount 1) 0))
    (fun s => !s.locked && !s.adjList.isEmpty && s.adjList[(2 : NodeId)]?.any fun (nd : NDescr) =>
      decide (nd.edgeValidity ≤ 6000000000 ∧ 6000000000 < nd.nodeValidity))
    (by decide +kernel)
  have hreach : Reachable (.hopCount 1) (fun _ e => FeedsSized e ∧ NoReset e) s := by
    refine ⟨0, steps_of_events mutualRun _ s (fun e he _ => ⟨feedsSized_mutualRun e he, ?_⟩) hs⟩
    simp only [mutualRun, List.mem_cons, List.not_mem_nil, or_false] at he
    rcases he with rfl | rfl <;> exact fun t ht => by cases ht
  simp only [Bool.and_eq_true, Bool.not_eq_true'] at htest
  obtain ⟨⟨hlocked, hne⟩, htest⟩ := htest
  -- The cleanup returns, and its outcome is read from the entry.
  obtain ⟨hok, hpass, -⟩ := (expiry_exact hreach).2 6000000000 hlocked
  obtain ⟨⟨s', next⟩, hrun⟩ := hok hne
  obtain ⟨hnodes, hlinks, -⟩ := hpass s' next hrun
  cases hnd : s.adjList[(2 : NodeId)]? with
  | none => simp [hnd] at htest
  | some nd =>
    simp only [hnd, Option.any_some, decide_eq_true_eq] at htest
    obtain ⟨nd', hnd'⟩ := (mem_iff_getElem? _ _).mp ((hnodes 2).mpr ⟨nd, hnd, htest.2⟩)
    obtain ⟨n, hn, hshape⟩ := hlinks 2 nd' hnd'
    rw [hnd, Option.some.injEq] at hn
    subst hn
    rw [if_pos htest.1] at hshape
    exact ⟨s, s', next, nd', hreach, hrun, hnd', hshape⟩

end Awds.Proofs
