import Awds.Proofs.Topology.Validity

/-!
# `Awds.Proofs.Topology.Feed`: the graph behind a call of `feed`

The graph of a topology, without its pointers, is the list of neighbours and qualities of
every node (`shape`), and `qualityAt` reads it. This module says what the merge and the
cleanup do to it. `Fed` puts together what holds in the middle of `feed`, behind the merge
and in front of the computation of the routes.
-/

set_option autoImplicit false

namespace Awds.Proofs

open Std (ExtTreeMap)
open Awds.Lib Awds.AdjList Awds.RTopology

/-! ### Qualities -/

/-- Lists with the same keys have the same values, if a key determines its value. -/
theorem map_eq_map_of_key {α β κ γ : Type} {k : α → κ} {k' : β → κ} {f : α → γ} {f' : β → γ} :
    ∀ {as : List α} {bs : List β}, as.map k = bs.map k' →
      (∀ a ∈ as, ∀ b ∈ bs, k a = k' b → f a = f' b) → as.map f = bs.map f' := by
  intro as
  induction as with
  | nil =>
    intro bs h _
    cases bs with
    | nil => rfl
    | cons b bs => simp at h
  | cons a as ih =>
    intro bs h hf
    cases bs with
    | nil => simp at h
    | cons b bs =>
      rw [List.map_cons, List.map_cons, List.cons.injEq] at h
      rw [List.map_cons, List.map_cons, hf a (.head _) b (.head _) h.1,
        ih h.2 fun x hx y hy => hf x (.tail _ hx) y (.tail _ hy)]

/-- The quality of the link `u → v`. -/
def qualityAt (adj : AdjList) (u v : NodeId) : Option UInt16 :=
  (adj.linkAt u v).map LinkQuality.quality

/-- The quality of a link, read from the shape of the vector. -/
theorem qualityAt_congr {adj adj' : AdjList} {u : NodeId}
    (h : (adj'.linksOf u).map shape = (adj.linksOf u).map shape) (v : NodeId) :
    qualityAt adj' u v = qualityAt adj u v := by
  have hq : ∀ a : AdjList, qualityAt a u v
      = (((a.linksOf u).map shape).find? fun x => x.1 = v).map Prod.snd := by
    intro a
    simp only [qualityAt, linkAt, linksOf, List.find?_map, Option.map_map]
    cases a[u]? with
    | none => rfl
    | some nd => rfl
  rw [hq, hq, h]

/-- The quality of a link that is in the vector. Ascending vectors hold a neighbour once, so the
search finds this link. -/
theorem qualityAt_eq_some {adj : AdjList} (hasc : AllAscending adj) {u : NodeId} {nd : NDescr}
    (hu : adj[u]? = some nd) {l : LinkQuality} (hl : l ∈ nd.links) :
    qualityAt adj u l.neighbor = some l.quality := by
  simp only [qualityAt, linkAt, hu,
    (NDescr.linkTo_eq_some_iff (hasc u nd hu)).mpr ⟨hl, rfl⟩, Option.map_some]

/-- No link to `v`, no quality. -/
theorem qualityAt_eq_none {adj : AdjList} {u v : NodeId}
    (h : ∀ l ∈ adj.linksOf u, l.neighbor ≠ v) : qualityAt adj u v = none := by
  unfold qualityAt linkAt
  cases hu : adj[u]? with
  | none => rfl
  | some nd =>
    rw [linksOf_of_some hu] at h
    simp only [NDescr.linkTo_eq_none_iff.mpr h, Option.map_none]

/-- The link `u → v` is in the map. -/
def HasLink (adj : AdjList) (u v : NodeId) : Prop := (qualityAt adj u v).isSome = true

instance (adj : AdjList) (u v : NodeId) : Decidable (HasLink adj u v) :=
  inferInstanceAs (Decidable (_ = _))

/-- A link in the vector is a link of the map. -/
theorem hasLink_of_mem {adj : AdjList} (hasc : AllAscending adj) {u : NodeId} {nd : NDescr}
    (hu : adj[u]? = some nd) {l : LinkQuality} (hl : l ∈ nd.links) :
    HasLink adj u l.neighbor := by
  simp only [HasLink, qualityAt_eq_some hasc hu hl, Option.isSome_some]

/-- A link of the map is in the vector of its source. -/
theorem HasLink.exists_mem {adj : AdjList} {u v : NodeId} (h : HasLink adj u v) :
    ∃ nd, adj[u]? = some nd ∧ ∃ l ∈ nd.links, l.neighbor = v := by
  by_contra hno
  have hnone : qualityAt adj u v = none := qualityAt_eq_none fun l hl hlv => by
    obtain ⟨nd, hu, hl⟩ := getElem?_of_mem_linksOf hl
    exact hno ⟨nd, hu, l, hl, hlv⟩
  simp [HasLink, hnone] at h

/-- The two readings of a link agree on ascending vectors. -/
theorem hasLink_iff {adj : AdjList} (hasc : AllAscending adj) {u v : NodeId} :
    HasLink adj u v ↔ ∃ l ∈ adj.linksOf u, l.neighbor = v := by
  constructor
  · intro h
    obtain ⟨nd, hnd, h⟩ := h.exists_mem
    rwa [linksOf_of_some hnd]
  · rintro ⟨l, hl, rfl⟩
    obtain ⟨nd, hnd, hl⟩ := getElem?_of_mem_linksOf hl
    exact hasLink_of_mem hasc hnd hl

/-! ### The merge and the cleanup -/

section
variable {st : Station} {now newValidity : AbsTime} {src : NodeId} {s : RTopology}
  {adj : AdjList} {ns : NDescr} {links : List LinkQuality} {name : List UInt8}

/-- The merge keeps the links of the other nodes in shape. -/
theorem Merged.shape_of_ne (hs : s.adjList[src]? = some ns) (hnew : AscendingLinks links)
    (h : Merged st now newValidity src (s.swapLinks src newValidity links).adjList
      (swappedEntry s newValidity links ns) ns.links name adj) {u : NodeId} (hu : u ≠ src) :
    (adj.linksOf u).map shape = (s.adjList.linksOf u).map shape := by
  have hsrc : (s.swapLinks src newValidity links).adjList[src]?
      = some (swappedEntry s newValidity links ns) := by
    rw [swapLinks_lookup hs, if_pos rfl]
  -- A node that has no entry now had none before.
  cases hnd : adj[u]? with
  | none =>
    rcases h.cases hu with ⟨l, -, -, heq⟩ | ⟨-, -, heq⟩ | ⟨-, -, heq⟩
    · simp [hnd] at heq
    · simp [hnd] at heq
    · rw [hnd, swapLinks_lookup hs, if_neg hu] at heq
      simp only [linksOf, hnd, ← heq]
  -- Only a link to the source was touched, and not its shape.
  | some nd =>
    obtain ⟨f, ht, -⟩ := h.touched hsrc hnew hu hnd
    rw [entryOf_swapLinks hs hu] at ht
    have hbefore : s.adjList.linksOf u = (entryOf st now s.adjList u).links := by
      unfold linksOf entryOf
      cases s.adjList[u]? <;> rfl
    rw [hbefore, linksOf_of_some hnd, NDescr.links, ht.linklist]
    simp only [NDescr.mapLink, List.map_map]
    refine List.map_congr_left fun l _ => ?_
    simp only [Function.comp_apply]
    split
    · simp only [shape, ht.neighbor, ht.quality]
    · rfl

/-- The links of the source behind the merge. -/
theorem Merged.shape_source {adj0 : AdjList} {old : List LinkQuality}
    (h : Merged st now newValidity src adj0 ns old name adj) :
    (adj.linksOf src).map shape = ns.links.map shape := by
  rw [linksOf_of_some h.source]
  simp only [NDescr.mapLinks, NDescr.links, List.map_map]
  rfl

/-- The merge only changes the qualities of the source. -/
theorem Merged.qualityAt_eq (hs : s.adjList[src]? = some ns) (hnew : AscendingLinks links)
    (h : Merged st now newValidity src (s.swapLinks src newValidity links).adjList
      (swappedEntry s newValidity links ns) ns.links name adj) (v x : NodeId) :
    qualityAt adj v x = qualityAt (s.swapLinks src newValidity links).adjList v x := by
  refine qualityAt_congr ?_ x
  by_cases hv : v = src
  · subst hv
    rw [h.shape_source, linksOf, swapLinks_lookup hs, if_pos rfl]
  · rw [h.shape_of_ne hs hnew hv, linksOf, linksOf, swapLinks_lookup hs, if_neg hv]

/-- Swapping the links of the source does not touch those of the other nodes. -/
theorem qualityAt_swapLinks (hs : s.adjList[src]? = some ns) {v : NodeId} (hv : v ≠ src)
    (x : NodeId) :
    qualityAt (s.swapLinks src newValidity links).adjList v x = qualityAt s.adjList v x := by
  refine qualityAt_congr ?_ x
  rw [linksOf, linksOf, swapLinks_lookup hs, if_neg hv]

/-- Whether the links of a node have expired can be read off the entry that `getNodeEntry` gives.
The entry of an unknown node is new and therefore valid. -/
theorem edgesExpired_entryOf (st : Station) (now : AbsTime) (adj : AdjList) (u : NodeId) :
    edgesExpired now adj u = decide ((entryOf st now adj u).edgeValidity ≤ now) := by
  unfold edgesExpired entryOf
  cases adj[u]? with
  | none => simp
  | some nd => rfl

/-- The links of the source have not expired behind the merge, and the merge leaves the
expiry of the other links alone. -/
theorem Merged.edgesExpired_eq (hs : s.adjList[src]? = some ns) (hnew : AscendingLinks links)
    (hval : now < newValidity)
    (h : Merged st now newValidity src (s.swapLinks src newValidity links).adjList
      (swappedEntry s newValidity links ns) ns.links name adj) (u : NodeId) :
    edgesExpired now adj u = if u = src then false else edgesExpired now s.adjList u := by
  have hsrc : (s.swapLinks src newValidity links).adjList[src]?
      = some (swappedEntry s newValidity links ns) := by
    rw [swapLinks_lookup hs, if_pos rfl]
  -- The source has the new validity.
  by_cases hu : u = src
  · subst hu
    simp only [edgesExpired, h.source, NDescr.mapLinks, swappedEntry, if_pos, not_le.mpr hval,
      decide_false]
  · -- The validity of the others is theirs.
    rw [if_neg hu]
    cases hnd : adj[u]? with
    | none =>
      rcases h.cases hu with ⟨l, -, -, heq⟩ | ⟨-, -, heq⟩ | ⟨-, -, heq⟩
      · simp [hnd] at heq
      · simp [hnd] at heq
      · rw [hnd, swapLinks_lookup hs, if_neg hu] at heq
        simp only [edgesExpired, hnd, ← heq]
    | some nd =>
      obtain ⟨f, ht, -⟩ := h.touched hsrc hnew hu hnd
      rw [entryOf_swapLinks hs hu] at ht
      rw [edgesExpired_entryOf st now s.adjList u]
      simp only [edgesExpired, hnd, ht.edgeValidity]

end

section
variable {t : AbsTime} {adj adj' : AdjList}

/-- The links behind a pass of the cleanup. -/
theorem Swept.linksOf_eq (hc : Consistent adj) (h : Swept t adj adj') (u : NodeId) :
    adj'.linksOf u = if edgesExpired t adj u then [] else
      (adj.linksOf u).map (survivingLink t adj) := by
  cases hnd : adj[u]? with
  | none =>
    simp only [linksOf, edgesExpired, h.entry, hnd, Option.bind_none, List.map_nil, ite_self]
  | some nd =>
    simp only [linksOf, edgesExpired, h.entry, hnd, Option.bind_some, survivingEntry,
      decide_eq_true_eq]
    by_cases hedge : nd.edgeValidity ≤ t
    · rw [if_pos hedge, if_pos hedge]
      by_cases hnode : nd.nodeValidity ≤ t
      · rw [if_pos hnode]
      · rw [if_neg hnode]
        rfl
    · -- a node whose links are left is left itself
      have hlive : t < nd.nodeValidity := (not_le.mp hedge).trans_le (hc.validity u nd hnd)
      rw [if_neg hedge, if_neg hedge, if_neg hlive.not_ge]
      rfl

/-- The links that are left have the neighbours and the qualities from before. -/
theorem Swept.shape_eq (hc : Consistent adj) (h : Swept t adj adj') {u : NodeId}
    (hexp : edgesExpired t adj u = false) :
    (adj'.linksOf u).map shape = (adj.linksOf u).map shape := by
  rw [h.linksOf_eq hc, hexp, if_neg (by simp), List.map_map]
  exact List.map_congr_left fun l _ => shape_survivingLink t adj l

/-- The qualities behind a pass of the cleanup. -/
theorem Swept.qualityAt_eq (hc : Consistent adj) (h : Swept t adj adj') (u v : NodeId) :
    qualityAt adj' u v = if edgesExpired t adj u then none else qualityAt adj u v := by
  cases hexp : edgesExpired t adj u with
  | true =>
    refine qualityAt_eq_none fun l hl => ?_
    rw [h.linksOf_eq hc, hexp, if_pos rfl] at hl
    cases hl
  | false =>
    rw [if_neg (by simp)]
    exact qualityAt_congr (h.shape_eq hc hexp) v

end

/-! ### The middle of `feed` -/

/-- The links that `feed` reads from the packet. -/
def packetLinks (p : BasePacket) : List LinkQuality :=
  match parseLinks p.buffer (TopoPacket.getNumLinks p) TopoPacket.offsetLinks none with
  | .ok links => links
  | .error _ => []

/-- The packet does not say what the topology holds already. -/
def hasNews (s : RTopology) (p : BasePacket) : Bool :=
  decide ((packetLinks p).map shape ≠ (s.adjList.linksOf (SrcPacket.getSrc p)).map shape)


/-- The links of a packet that `parseLinks` reads without an error. -/
theorem packetLinks_of_ok {p : BasePacket} {links : List LinkQuality}
    (h : parseLinks p.buffer (TopoPacket.getNumLinks p) TopoPacket.offsetLinks none = .ok links) :
    packetLinks p = links := by
  simp only [packetLinks, h]

/-- The state `s1` is that of an unlocked `feed` behind the merge. The source has the entry
`ns` in front of the merge. -/
structure Fed (st : Station) (now : AbsTime) (s : RTopology) (p : BasePacket) (ns : NDescr)
    (s1 : RTopology) : Prop where
  entry : ns = entryOf st now s.adjList (SrcPacket.getSrc p)
  valid : 0 < TopoPacket.getValidity p
  ascending : AscendingLinks (packetLinks p)
  merged : Merged st now (now + TopoPacket.getValidity p) (SrcPacket.getSrc p)
    ((s.getNodeEntry st now (SrcPacket.getSrc p)).swapLinks (SrcPacket.getSrc p)
      (now + TopoPacket.getValidity p) (packetLinks p)).adjList
    (swappedEntry (s.getNodeEntry st now (SrcPacket.getSrc p)) (now + TopoPacket.getValidity p)
      (packetLinks p) ns)
    ns.links (nameBehind p ns.nodeName) s1.adjList
  weights : ∀ l ∈ packetLinks p, ∃ w, weightOf st.metric
    ((s.getNodeEntry st now (SrcPacket.getSrc p)).swapLinks (SrcPacket.getSrc p)
      (now + TopoPacket.getValidity p) (packetLinks p)).adjList (SrcPacket.getSrc p) l = .ok w
  dirty : s1.dirty = (s.dirty || hasNews s p)
  locked : s1.locked = s.locked

section
variable {st : Station} {now : AbsTime} {s s1 s' : RTopology} {p : BasePacket} {ns : NDescr}

/-- Behind `getNodeEntry` the node has an entry. -/
theorem getNodeEntry_lookup (st : Station) (now : AbsTime) (s : RTopology) (id : NodeId) :
    (s.getNodeEntry st now id).adjList[id]? = some (entryOf st now s.adjList id) := by
  rw [getNodeEntry_adjList, getElem?_insertAt, if_pos rfl]

/-- The new entry of an unknown node has no links, so the links are those of the map. -/
theorem linksOf_eq_entryOf (st : Station) (now : AbsTime) (adj : AdjList) (id : NodeId) :
    adj.linksOf id = (entryOf st now adj id).links := by
  unfold linksOf entryOf
  cases adj[id]? with
  | none => rfl
  | some nd => rfl

/-- The state behind the merge of the links that were read from the packet. -/
theorem Fed.of_merge {links : List LinkQuality} (hc : Consistent s.adjList)
    (hval : 0 < TopoPacket.getValidity p)
    (hparse : parseLinks p.buffer (TopoPacket.getNumLinks p) TopoPacket.offsetLinks none
      = .ok links)
    (hmerge : (s.getNodeEntry st now (SrcPacket.getSrc p)).mergeLinks st now
      (now + TopoPacket.getValidity p) p links = .ok s1) :
    ∃ ns, Fed st now s p ns s1 := by
  have hlinks := packetLinks_of_ok hparse
  have hasc := (parseLinks_ascending _ _ _ _ _ hparse).1
  have hc0 := hc.getNodeEntry st now (SrcPacket.getSrc p)
  obtain ⟨hd, hl, -⟩ := getNodeEntry_frame st now s (SrcPacket.getSrc p)
  have hent := getNodeEntry_lookup st now s (SrcPacket.getSrc p)
  have hold := hc0.ascending _ _ hent
  obtain ⟨hmerged, hframe, hweights⟩ := mergeLinks_spec hent hc0.ascending hasc hmerge
  subst hlinks
  refine ⟨_, rfl, hval, hasc, hmerged, hweights, ?_, hframe.locked.trans hl⟩
  have hnews : (mergeOps (packetLinks p)
      (entryOf st now s.adjList (SrcPacket.getSrc p)).links).any changes = hasNews s p := by
    rw [Bool.eq_iff_iff, ← not_iff_not, Bool.not_eq_true, any_changes_eq_false_iff hasc hold,
      hasNews, linksOf_eq_entryOf st now]
    simp
  rw [hframe.dirty, hnews]
  simp only [hd]

/-- An unlocked `feed` of a packet that passes the size checks. -/
theorem Fed.of_feed (hc : Consistent s.adjList) (hp : SizeOk p) (hlocked : s.locked = false)
    (h : s.feed st now p = .ok s') :
    ∃ ns s1, Fed st now s p ns s1 ∧
      (if s1.dirty then s1.updateTopology st now else .ok s1) = .ok s' := by
  rcases feed_cases hp h with ⟨hl, -⟩ | ⟨-, hval, links, s1, hparse, hmerge, h⟩
  · rw [hlocked] at hl
    cases hl
  · obtain ⟨ns, hf⟩ := Fed.of_merge hc hval hparse hmerge
    exact ⟨ns, s1, hf, h⟩

variable (hf : Fed st now s p ns s1)
include hf

/-- The entry of the source in front of the merge, where the merge looks for it. -/
theorem Fed.lookup : (s.getNodeEntry st now (SrcPacket.getSrc p)).adjList[SrcPacket.getSrc p]?
    = some ns := by
  rw [hf.entry]
  exact getNodeEntry_lookup st now s _

/-- The merge keeps the map consistent. -/
theorem Fed.consistent (hc : Consistent s.adjList) : Consistent s1.adjList :=
  hf.merged.consistent (hc.getNodeEntry st now _) hf.lookup hf.ascending

/-- Behind the merge the source has the links of the packet. -/
theorem Fed.shape_source :
    (s1.adjList.linksOf (SrcPacket.getSrc p)).map shape = (packetLinks p).map shape :=
  hf.merged.shape_source

/-- The other nodes have the links they had. -/
theorem Fed.shape_of_ne {u : NodeId} (hu : u ≠ SrcPacket.getSrc p) :
    (s1.adjList.linksOf u).map shape = (s.adjList.linksOf u).map shape := by
  rw [hf.merged.shape_of_ne hf.lookup hf.ascending hu, linksOf_getNodeEntry]

/-- A link of the source behind the merge is one of the packet. -/
theorem Fed.hasLink_source {v : NodeId} (h : HasLink s1.adjList (SrcPacket.getSrc p) v) :
    ∃ l ∈ packetLinks p, l.neighbor = v := by
  obtain ⟨nd, hnd, l, hl, rfl⟩ := h.exists_mem
  have hmem : shape l ∈ (packetLinks p).map shape := by
    rw [← hf.shape_source, linksOf_of_some hnd]
    exact List.mem_map_of_mem hl
  obtain ⟨r, hr, hshape⟩ := List.mem_map.mp hmem
  exact ⟨r, hr, congrArg Prod.fst hshape⟩

/-- The other nodes gain and lose no link. -/
theorem Fed.hasLink_of_ne {u : NodeId} (hu : u ≠ SrcPacket.getSrc p) (v : NodeId) :
    HasLink s1.adjList u v ↔ HasLink s.adjList u v := by
  simp only [HasLink, qualityAt_congr (hf.shape_of_ne hu)]

/-- The links of the source have just been renewed. For the other nodes the validity is as before.
-/
theorem Fed.edgesExpired_eq (u : NodeId) :
    edgesExpired now s1.adjList u =
      if u = SrcPacket.getSrc p then false else edgesExpired now s.adjList u := by
  have hval : now < now + TopoPacket.getValidity p := lt_add_of_pos_right now hf.valid
  rw [hf.merged.edgesExpired_eq hf.lookup hf.ascending hval, edgesExpired_entryOf st now s.adjList,
    edgesExpired_entryOf st now, getNodeEntry_adjList]
  split
  · rfl
  · rename_i hu
    have : (s.adjList.insert (SrcPacket.getSrc p)
        (entryOf st now s.adjList (SrcPacket.getSrc p)))[u]? = s.adjList[u]? := by
      rw [getElem?_insertAt, if_neg (Ne.symm hu)]
    rw [entryOf_congr this]

end

end Awds.Proofs
