import Awds.Proofs.Topology.Entries

/-!
# `Awds.Proofs.Topology.Rejection`: malformed topo packets

`feed` refuses a packet that is too short for its header, or for the links that it announces.
In front of the second check it has made the entry of the source, renewed its validities and
swapped its link vector for a new one with the announced length (`feed_malformed`).

So a packet that fails the second check replaces the links of the source by default links, and
the reverse links of the old ones are left with a counterpart that does not exist any more. Only
when the topology is in the state that such a packet leaves behind nothing changes
(`malformed_feed_iff`).

The vectors are told apart by the identities of their buffers, and the new one has an identity
that is not in use (`Numbered`).
-/

set_option autoImplicit false

namespace Awds.Proofs

open Std (ExtTreeMap)
open Awds.Lib Awds.AdjList Awds.RTopology

/-! ### What a malformed packet changes -/

section
variable {st : Station} {now : AbsTime} {s s' : RTopology} {p : BasePacket}

/-- The two validities of a node. -/
def validityPair (nd : NDescr) : AbsTime × AbsTime := (nd.nodeValidity, nd.edgeValidity)

/-- The state `s'` has the nodes, links, validities and names of `s`, and no counterpart in it
refers to a link of `s` that is gone. -/
structure Unchanged (s s' : RTopology) : Prop where
  nodes : ∀ u, u ∈ s'.adjList ↔ u ∈ s.adjList
  links : ∀ u, s'.adjList.linksOf u = s.adjList.linksOf u
  validities : ∀ (u : NodeId), s'.adjList[u]?.map validityPair = s.adjList[u]?.map validityPair
  names : ∀ (u : NodeId), s'.adjList[u]?.map NDescr.nodeName = s.adjList[u]?.map NDescr.nodeName
  counterparts : ∀ u, ∀ l ∈ s'.adjList.linksOf u, ∀ q, l.counterpart = some q →
    s.adjList.link? q ≠ none → s'.adjList.link? q ≠ none

/-- The topology is in the state that a malformed packet like `p` leaves behind: the source has
the default links that it announces, with its validities, and nothing refers to them. -/
structure LeftBehind (now : AbsTime) (s : RTopology) (p : BasePacket) : Prop where
  validity : 0 < TopoPacket.getValidity p
  entry : ∃ nd, s.adjList[SrcPacket.getSrc p]? = some nd ∧
    nd.links = List.replicate (TopoPacket.getNumLinks p) {} ∧
    now + TopoPacket.getValidity p ≤ nd.nodeValidity ∧
    nd.edgeValidity = now + TopoPacket.getValidity p ∧
    ∀ u, ∀ l ∈ s.adjList.linksOf u, ∀ q, l.counterpart = some q →
      q.owner = SrcPacket.getSrc p → s.adjList.link? q = none

/-- A node whose entry is new was not there before. -/
theorem Unchanged.mem_src {newValidity : AbsTime} {links : List LinkQuality}
    (h : Unchanged s ((s.getNodeEntry st now (SrcPacket.getSrc p)).swapLinks (SrcPacket.getSrc p)
      newValidity links)) : SrcPacket.getSrc p ∈ s.adjList := by
  rw [← h.nodes, mem_iff_getElem?, swapLinks_lookup (getNodeEntry_lookup st now s _), if_pos rfl]
  exact ⟨_, rfl⟩

/-- A node that is there gets no new entry. -/
theorem getNodeEntry_of_mem {id : NodeId} (st : Station) (now : AbsTime) (h : id ∈ s.adjList) :
    s.getNodeEntry st now id = s := by
  unfold getNodeEntry
  rw [if_pos h]

/-- The swap changes nothing exactly in the state that a malformed packet leaves behind. -/
theorem unchanged_swapLinks_iff {nd : NDescr} {newValidity : AbsTime} {src : NodeId} {n : Nat}
    (hn : Numbered s) (hsrc : s.adjList[src]? = some nd) :
    Unchanged s (s.swapLinks src newValidity (List.replicate n {})) ↔
      nd.links = List.replicate n {} ∧ newValidity ≤ nd.nodeValidity ∧
        nd.edgeValidity = newValidity ∧
        ∀ u, ∀ l ∈ s.adjList.linksOf u, ∀ q, l.counterpart = some q → q.owner = src →
          s.adjList.link? q = none := by
  have hlookup : ∀ v, (s.swapLinks src newValidity (List.replicate n {})).adjList[v]? =
      if v = src then some (swappedEntry s newValidity (List.replicate n {}) nd)
      else s.adjList[v]? := swapLinks_lookup hsrc
  constructor
  · intro h
    have hlinks := h.links src
    rw [linksOf_of_some ((hlookup src).trans (if_pos rfl)), linksOf_of_some hsrc] at hlinks
    have hvalid := h.validities src
    rw [hlookup, if_pos rfl, hsrc, Option.map_some, Option.map_some, Option.some.injEq,
      validityPair, validityPair, Prod.mk.injEq] at hvalid
    refine ⟨hlinks.symm, ?_, hvalid.2.symm, fun u l hl q hq howner => ?_⟩
    · have hmax : max nd.nodeValidity newValidity = nd.nodeValidity := by
        rw [← NDescr.nodeValidity_updateNodeValidity]
        exact hvalid.1
      exact max_eq_left_iff.mp hmax
    · by_contra hlink
      have hkept := h.counterparts u l (by rwa [h.links]) q hq hlink
      -- `q` is the old vector of the source, and the new one has another identity
      obtain ⟨r, hr⟩ := Option.ne_none_iff_exists'.mp hlink
      obtain ⟨r', hr'⟩ := Option.ne_none_iff_exists'.mp hkept
      obtain ⟨m, hm, hbuf, hidx⟩ := link?_eq_some_iff.mp hr
      obtain ⟨m', hm', hbuf', -⟩ := link?_eq_some_iff.mp hr'
      rw [hlookup, if_pos howner] at hm'
      cases hm'
      have hlt := hn q.owner m hm (List.ne_nil_of_mem (List.mem_of_getElem? hidx))
      have hnext : s.nextBuf = q.buf := hbuf'
      omega
  · rintro ⟨hlinks, hnode, hedge, hrefs⟩
    have hentry : ∀ {β : Type} (f : NDescr → β),
        f (swappedEntry s newValidity (List.replicate n {}) nd) = f nd →
        ∀ u : NodeId, (s.swapLinks src newValidity (List.replicate n {})).adjList[u]?.map f =
          s.adjList[u]?.map f := by
      intro β f hf u
      rw [hlookup]
      by_cases hu : u = src
      · rw [if_pos hu, hu, hsrc, Option.map_some, Option.map_some, hf]
      · rw [if_neg hu]
    have hlinksOf : ∀ u, (s.swapLinks src newValidity (List.replicate n {})).adjList.linksOf u =
        s.adjList.linksOf u := by
      intro u
      by_cases hu : u = src
      · rw [hu, linksOf_of_some ((hlookup src).trans (if_pos rfl)), linksOf_of_some hsrc, hlinks]
        rfl
      · unfold linksOf
        rw [hlookup, if_neg hu]
    refine ⟨fun u => ?_, hlinksOf, hentry _ ?_, hentry _ ?_, fun u l hl q hq hlink => ?_⟩
    · rw [mem_iff_getElem?, mem_iff_getElem?, hlookup]
      by_cases hu : u = src
      · rw [if_pos hu, hu, hsrc]
        exact ⟨fun _ => ⟨_, rfl⟩, fun _ => ⟨_, rfl⟩⟩
      · rw [if_neg hu]
    · show ((nd.updateNodeValidity newValidity).nodeValidity, newValidity) = _
      rw [NDescr.nodeValidity_updateNodeValidity, max_eq_left hnode, ← hedge]
      rfl
    · exact NDescr.nodeName_updateNodeValidity nd newValidity
    · -- a counterpart that resolves belongs to another node, whose entry is the same
      have howner : q.owner ≠ src := fun howner =>
        hlink (hrefs u l (by rwa [← hlinksOf u]) q hq howner)
      unfold link? at hlink ⊢
      rwa [hlookup, if_neg howner]

/-- A state is unchanged by nothing. -/
theorem Unchanged.refl (s : RTopology) : Unchanged s s :=
  ⟨fun _ => Iff.rfl, fun _ => rfl, fun _ => rfl, fun _ => rfl, fun _ _ _ _ _ h => h⟩

/-- A malformed packet leaves the topology unchanged exactly when it is refused in front of the
swap, or finds the state that such a packet leaves behind. -/
theorem malformed_feed_iff (hn : Numbered s) (hp : ¬ SizeOk p) :
    (∃ s', s.feed st now p = .ok s' ∧ Unchanged s s') ↔
      s.locked = true ∨ p.size < TopoPacket.offsetLinks + 1 ∨ LeftBehind now s p := by
  rw [feed_malformed st now s hp, ← or_assoc]
  by_cases hearly : s.locked = true ∨ p.size < TopoPacket.offsetLinks + 1
  · rw [if_pos hearly]
    exact iff_of_true ⟨s, rfl, Unchanged.refl s⟩ (.inl hearly)
  rw [if_neg hearly, or_iff_right hearly]
  constructor
  · rintro ⟨s', hrun, hsame⟩
    split at hrun
    · cases hrun
    · rename_i hval
      cases hrun
      obtain ⟨nd, hnd⟩ := (mem_iff_getElem? _ _).mp hsame.mem_src
      rw [getNodeEntry_of_mem st now hsame.mem_src] at hsame
      exact ⟨not_le.mp hval, nd, hnd, (unchanged_swapLinks_iff hn hnd).mp hsame⟩
  · rintro ⟨hval, nd, hnd, hleft⟩
    have hmem := (mem_iff_getElem? _ _).mpr ⟨nd, hnd⟩
    rw [if_neg (not_le.mpr hval), getNodeEntry_of_mem st now hmem]
    exact ⟨_, rfl, (unchanged_swapLinks_iff hn hnd).mpr hleft⟩

end

/-! ### Two malformed packets of station 2 -/

/-- A packet of station 2 that announces a link but ends with its header. -/
def shortPacket : BasePacket :=
  { topoOf 2 5000 [(1, 20)] with size := TopoPacket.offsetLinks + 1 }

/-- The second of two equal packets changes nothing. -/
theorem malformed_feed_again :
    ∃ s s', (init (.hopCount 1) 0).feed (.hopCount 1) 0 shortPacket = .ok s ∧
      s.feed (.hopCount 1) 0 shortPacket = .ok s' ∧ Unchanged s s' := by
  obtain ⟨s, hs, htest⟩ := exists_of_test
    ((init (.hopCount 1) 0).feed (.hopCount 1) 0 shortPacket)
    (fun s => (s.adjList[(2 : NodeId)]?.any fun (nd : NDescr) =>
        decide (nd.links = List.replicate (TopoPacket.getNumLinks shortPacket) {} ∧
          0 + TopoPacket.getValidity shortPacket ≤ nd.nodeValidity ∧
          nd.edgeValidity = 0 + TopoPacket.getValidity shortPacket)) &&
      s.adjList.toList.all fun e => e.2.links.all fun l => l.counterpart.isNone)
    (by decide +kernel)
  rw [Bool.and_eq_true] at htest
  obtain ⟨hentry, hnone⟩ := htest
  have hreach : Reachable (.hopCount 1) (fun _ _ => True) s :=
    ⟨0, .single ⟨⟨0, .feed shortPacket⟩, trivial, hs⟩⟩
  have hleft : LeftBehind 0 s shortPacket := by
    refine ⟨by decide +kernel, ?_⟩
    have hsrc : SrcPacket.getSrc shortPacket = 2 := by decide +kernel
    rw [hsrc]
    cases hnd : s.adjList[(2 : NodeId)]? with
    | none => simp [hnd] at hentry
    | some nd =>
      simp only [hnd, Option.any_some, decide_eq_true_eq] at hentry
      refine ⟨nd, rfl, hentry.1, hentry.2.1, hentry.2.2, fun u l hl q hq => ?_⟩
      -- no link has a counterpart
      obtain ⟨n, hn, hmem⟩ := getElem?_of_mem_linksOf hl
      have hmem' := ExtTreeMap.mem_toList_iff_getElem?_eq_some.mpr hn
      have hall := List.all_eq_true.mp hnone (u, n) hmem'
      have hl' := List.all_eq_true.mp hall l hmem
      rw [hq] at hl'
      cases hl'
  obtain ⟨s', hs', hsame⟩ := (malformed_feed_iff (numbered_of_reachable hreach)
    (by decide +kernel)).mpr (.inr (.inr hleft))
  exact ⟨s, s', hs, hs', hsame⟩

/-- Behind the run in which both stations have heard of their link the packet destroys the link
of station 2, and the counterpart of the link of station 1 refers to it still. -/
theorem malformed_feed_changes :
    ∃ s s', Reachable (.hopCount 1) (fun _ _ => True) s ∧ s.locked = false ∧
      ¬ SizeOk shortPacket ∧ s.feed (.hopCount 1) 0 shortPacket = .ok s' ∧
      s'.adjList.linksOf 2 ≠ s.adjList.linksOf 2 ∧
      (∃ l ∈ s'.adjList.linksOf 1, ∃ q, l.counterpart = some q ∧
        s.adjList.link? q ≠ none ∧ s'.adjList.link? q = none) ∧
      ¬ Unchanged s s' := by
  obtain ⟨⟨s, s'⟩, hrun, htest⟩ := exists_of_test
    (do
      let s ← mutualRun.foldlM (exec (.hopCount 1)) (init (.hopCount 1) 0)
      let s' ← s.feed (.hopCount 1) 0 shortPacket
      .ok (s, s'))
    (fun r => decide (r.1.locked = false ∧ r.2.adjList.linksOf 2 ≠ r.1.adjList.linksOf 2 ∧
      ∃ l ∈ r.2.adjList.linksOf 1, ∃ q ∈ l.counterpart,
        r.1.adjList.link? q ≠ none ∧ r.2.adjList.link? q = none)) (by decide +kernel)
  obtain ⟨s, hs, hrun⟩ := bind_eq_ok.mp hrun
  obtain ⟨s', hs', hrun⟩ := bind_eq_ok.mp hrun
  cases hrun
  obtain ⟨hlocked, hlinks, l, hl, q, hq, hbefore, hafter⟩ := of_decide_eq_true htest
  exact ⟨s, s', ⟨0, steps_of_events mutualRun _ s (fun _ _ _ => trivial) hs⟩, hlocked,
    by decide +kernel, hs', hlinks, ⟨l, hl, q, hq, hbefore, hafter⟩, fun h => hlinks (h.links 2)⟩

end Awds.Proofs
