import Awds.Proofs.Topology.Links

/-!
# `Awds.Proofs.Topology.Merge`: the effect of `feed` on the map

`feed` swaps the link vector of the source and walks through the new and the old vector.
Every turn of the walk is about one neighbour and changes the entry of that neighbour and
one link of the source. The neighbours of the walk ascend, so no entry is changed twice,
and the map behind the loop can be said entry by entry against the map `adj0` in front of
it. `MergeInv` is this description for a part of the walk: `mergeStep_run` is its step and
`mergeFold_frame` the whole loop.

`Merged` restates the result without the walk, in terms of the new and the old vector.
-/

set_option autoImplicit false

namespace Awds.AdjList

/-- The link `u → v`. -/
def linkAt (adj : AdjList) (u v : NodeId) : Option LinkQuality :=
  match adj[u]? with
  | none => none
  | some nd => nd.linkTo v

end Awds.AdjList

namespace Awds.Proofs

open Std (ExtTreeMap)
open Awds.Lib Awds.AdjList Awds.RTopology

/-! ### Entries that may be missing -/

/-- A missing entry has no links, so a lookup in it fails like one in the entry that `getNodeEntry`
creates. -/
theorem findLink_eq_entryOf (st : Station) (now : AbsTime) (adj : AdjList) (v id : NodeId) :
    adj.findLink v id = ((entryOf st now adj v).findLinkQuality id).map
      fun i => ⟨v, (entryOf st now adj v).linklist.buf, i⟩ := by
  unfold findLink entryOf
  cases adj[v]? with
  | none => rfl
  | some nd => rfl

/-- The same for the link itself. -/
theorem linkAt_eq_entryOf (st : Station) (now : AbsTime) (adj : AdjList) (v id : NodeId) :
    adj.linkAt v id = (entryOf st now adj v).linkTo id := by
  unfold linkAt entryOf
  cases adj[v]? with
  | none => rfl
  | some nd => rfl

/-- Every link vector of the map is ascending. -/
def AllAscending (adj : AdjList) : Prop :=
  ∀ (v : NodeId) (nd : NDescr), adj[v]? = some nd → AscendingLinks nd.links

/-- Created entries have no links, so all vectors are ascending with them too. -/
theorem AllAscending.entryOf {adj : AdjList} (h : AllAscending adj) (st : Station)
    (now : AbsTime) (v : NodeId) : AscendingLinks (entryOf st now adj v).links := by
  unfold Awds.Proofs.entryOf
  cases hv : adj[v]? with
  | none => exact List.Pairwise.nil
  | some nd => exact h v nd hv

/-- `getNodeEntry` keeps the vectors ascending. -/
theorem AllAscending.getNodeEntry {s : RTopology} (h : AllAscending s.adjList) (st : Station)
    (now : AbsTime) (id : NodeId) : AllAscending (s.getNodeEntry st now id).adjList := by
  intro v nd hv
  rw [getNodeEntry_adjList, getElem?_insertAt] at hv
  split at hv
  · cases hv
    exact h.entryOf st now id
  · exact h v nd hv

/-- An entry with a link was there before. -/
theorem getElem?_of_mem_links {st : Station} {now : AbsTime} {adj : AdjList} {v : NodeId}
    {l : LinkQuality} (h : l ∈ (entryOf st now adj v).links) :
    adj[v]? = some (entryOf st now adj v) := by
  unfold entryOf at h ⊢
  cases hv : adj[v]? with
  | none =>
    simp only [hv] at h
    cases h
  | some nd => rfl

/-- A new entry has no links. -/
theorem linksOf_insert_entryOf (st : Station) (now : AbsTime) (adj : AdjList) (id u : NodeId) :
    AdjList.linksOf (adj.insert id (entryOf st now adj id)) u = adj.linksOf u := by
  unfold linksOf entryOf
  by_cases hu : id = u
  · subst hu
    rw [getElem?_insertAt, if_pos rfl]
    cases adj[id]? with
    | none => rfl
    | some nd => rfl
  · rw [getElem?_insertAt, if_neg hu]

/-- No link is lost or made by `getNodeEntry`. -/
theorem linksOf_getNodeEntry (st : Station) (now : AbsTime) (s : RTopology) (id u : NodeId) :
    (s.getNodeEntry st now id).adjList.linksOf u = s.adjList.linksOf u := by
  rw [getNodeEntry_adjList, linksOf_insert_entryOf]

/-- The links of a node with an entry are those of its vector. -/
theorem linksOf_of_some {adj : AdjList} {u : NodeId} {nd : NDescr} (h : adj[u]? = some nd) :
    adj.linksOf u = nd.links := by
  simp only [linksOf, h]

/-- A node with a link is in the map. -/
theorem getElem?_of_mem_linksOf {adj : AdjList} {u : NodeId} {l : LinkQuality}
    (h : l ∈ adj.linksOf u) : ∃ nd, adj[u]? = some nd ∧ l ∈ nd.links := by
  unfold linksOf at h
  cases hu : adj[u]? with
  | none => simp [hu] at h
  | some nd =>
    rw [hu] at h
    exact ⟨nd, rfl, h⟩

/-- Only the lookup of the node itself decides what `getNodeEntry` finds. -/
theorem entryOf_congr {adj adj' : AdjList} {v : NodeId} (h : adj[v]? = adj'[v]?)
    (st : Station) (now : AbsTime) : entryOf st now adj v = entryOf st now adj' v := by
  simp only [entryOf, h]

/-- The neighbour and the quality of a link. -/
def shape (l : LinkQuality) : NodeId × UInt16 := (l.neighbor, l.quality)

/-- A change of one link that keeps its shape keeps those of the vector. -/
theorem map_shape_modify {f : LinkQuality → LinkQuality} (hf : ∀ l, shape (f l) = shape l)
    (ls : List LinkQuality) (i : Nat) : (ls.modify i f).map shape = ls.map shape := by
  refine List.ext_getElem? fun j => ?_
  rw [List.getElem?_map, List.getElem?_map, List.getElem?_modify]
  split
  · cases ls[j]? with
    | none => rfl
    | some l => exact congrArg some (hf l)
  · cases ls[j]? <;> rfl

/-! ### The walk -/

/-- The entry has changed the graph. -/
def changes : MergeOp → Bool
  | .kept (new, _) old => decide (new.quality ≠ old.quality)
  | .added _ => true
  | .removed _ => true

/-- The weight that `calculate` gives the link `l` of `src`. -/
def weightOf (m : Metric) (adj : AdjList) (src : NodeId) (l : LinkQuality) : Result UInt32 :=
  linkWeight m l.quality ((adj.linkAt l.neighbor src).map LinkQuality.quality)

/-- The same as a number, where the metric does not fail. -/
def weightD (m : Metric) (adj : AdjList) (src : NodeId) (l : LinkQuality) : UInt32 :=
  match weightOf m adj src l with
  | .ok w => w
  | .error _ => 0

/-- The link `l` of `src` behind the loop. -/
def mergedLink (m : Metric) (adj : AdjList) (src : NodeId) (l : LinkQuality) : LinkQuality :=
  connect (adj.findLink l.neighbor src) (weightD m adj src l) l

/-- The neighbours of the new links of a part of the walk. -/
def newNeighbors (ops : List MergeOp) : List NodeId :=
  ops.filterMap fun op => op.new?.map fun a => a.1.neighbor

section
variable (st : Station) (now newValidity : AbsTime) (src : NodeId)

/-- The entry of the neighbour of a new link behind the loop. -/
def attachedEntry (adj : AdjList) (new : LinkQuality) : NDescr :=
  (raisedEntry st now newValidity adj new.neighbor).mapLink src
    (connect (adj.findLink src new.neighbor) (weightD st.metric adj src new))

/-- The entry of the neighbour of a lost link behind the loop. -/
def detachedEntry (adj : AdjList) (v : NodeId) : NDescr :=
  (entryOf st now adj v).mapLink src disconnect

/-- The entry of the neighbour of `op` behind the loop. -/
def opEntry (adj : AdjList) (op : MergeOp) : NDescr :=
  match op.new? with
  | some (new, _) => attachedEntry st now newValidity src adj new
  | none => detachedEntry st now src adj op.neighbor

/-- The map in front of the loop: the entry `ns` of the source has its new links. -/
structure MergeStart (adj0 : AdjList) (ns : NDescr) : Prop where
  entry : adj0[src]? = some ns
  ascending : AllAscending adj0
  validity : newValidity ≤ ns.nodeValidity

/-- The map `adj` behind the part `done` of the walk. -/
structure MergeInv (adj0 : AdjList) (ns : NDescr) (done : List MergeOp) (adj : AdjList) :
    Prop where
  source : adj[src]? = some (ns.mapLinks fun l =>
    if l.neighbor ∈ newNeighbors done then mergedLink st.metric adj0 src l else l)
  visited : ∀ op ∈ done, op.neighbor ≠ src →
    adj[op.neighbor]? = some (opEntry st now newValidity src adj0 op)
  other : ∀ v, v ≠ src → (∀ op ∈ done, op.neighbor ≠ v) → adj[v]? = adj0[v]?

variable {st now newValidity src} {adj0 : AdjList} {ns : NDescr}

/-- In front of the loop the vector of the source is the new one, and no other entry was touched. -/
theorem MergeInv.start (h : MergeStart newValidity src adj0 ns) :
    MergeInv st now newValidity src adj0 ns [] adj0 where
  source := by
    rw [NDescr.mapLinks_eq_self fun l _ => by simp [newNeighbors], h.entry]
  visited := by simp
  other := fun _ _ _ => rfl

/-- A link that is merged leads to the neighbour of before. -/
theorem neighbor_mergeIf (m : Metric) (ops : List MergeOp) (l : LinkQuality) :
    (if l.neighbor ∈ newNeighbors ops then mergedLink m adj0 src l else l).neighbor
      = l.neighbor := by
  split <;> rfl

/-- The metric does not fail on the new link of an entry. -/
def opWeight (m : Metric) (adj : AdjList) (src : NodeId) (op : MergeOp) : Result UInt32 :=
  match op.new? with
  | some (new, _) => weightOf m adj src new
  | none => .ok 0

section
variable {done : List MergeOp} {adj : AdjList} (h0 : MergeStart newValidity src adj0 ns)
  (inv : MergeInv st now newValidity src adj0 ns done adj)
include h0 inv

/-- The entry of the source has its nodeValidity raised already. -/
theorem MergeInv.raised_source :
    raisedEntry st now newValidity adj src = ns.mapLinks fun l =>
      if l.neighbor ∈ newNeighbors done then mergedLink st.metric adj0 src l else l := by
  rw [raisedEntry, entryOf_of_some inv.source, NDescr.updateNodeValidity, if_neg]
  exact h0.validity.not_gt

/-- The entry of a neighbour that was not visited still has its links. -/
theorem MergeInv.raised_linkTo {v : NodeId} (hv : ∀ op ∈ done, op.neighbor ≠ v) :
    ((raisedEntry st now newValidity adj v).linkTo src).map LinkQuality.quality
      = (adj0.linkAt v src).map LinkQuality.quality := by
  by_cases hsrc : v = src
  · subst hsrc
    rw [inv.raised_source h0, NDescr.linkTo_mapLinks (neighbor_mergeIf _ _),
      linkAt_eq_entryOf st now, entryOf_of_some h0.entry, Option.map_map]
    congr 1
    funext l
    simp only [Function.comp_def]
    split <;> rfl
  · rw [linkAt_eq_entryOf st now, entryOf_congr (inv.other v hsrc hv).symm, raisedEntry,
      NDescr.linkTo, NDescr.linkTo, NDescr.links_updateNodeValidity]

/-- The entry of a neighbour that was not visited has an ascending vector, also where the neighbour
is the source itself. -/
theorem MergeInv.raised_ascending {v : NodeId} (hv : ∀ op ∈ done, op.neighbor ≠ v) :
    AscendingLinks (raisedEntry st now newValidity adj v).links := by
  by_cases hsrc : v = src
  · subst hsrc
    rw [inv.raised_source h0]
    exact NDescr.ascending_mapLinks (neighbor_mergeIf _ _) (h0.ascending _ _ h0.entry)
  · rw [raisedEntry, NDescr.links_updateNodeValidity, entryOf_congr (inv.other v hsrc hv)]
    exact h0.ascending.entryOf st now v

/-- The pointer to the reverse link that `findLinkQuality` returns. -/
theorem MergeInv.raised_find {v : NodeId} (hv : ∀ op ∈ done, op.neighbor ≠ v) :
    ((raisedEntry st now newValidity adj v).findLinkQuality src).map
      (fun j => (⟨v, (raisedEntry st now newValidity adj v).linklist.buf, j⟩ : LinkPtr))
      = adj0.findLink v src := by
  by_cases hsrc : v = src
  · subst hsrc
    rw [inv.raised_source h0, NDescr.findLinkQuality_mapLinks (neighbor_mergeIf _ _),
      findLink_eq_entryOf st now, entryOf_of_some h0.entry]
    rfl
  · rw [findLink_eq_entryOf st now, entryOf_congr (inv.other v hsrc hv).symm, raisedEntry]
    simp only [NDescr.findLinkQuality, NDescr.links_updateNodeValidity,
      NDescr.linklist_updateNodeValidity]

/-- The entry of a new link, behind its turn. -/
theorem MergeInv.up {op : MergeOp} {new : LinkQuality} {i : Nat}
    (hfresh : ∀ o ∈ done, o.neighbor ≠ op.neighbor) (hop : op.new? = some (new, i))
    (hv : op.neighbor = new.neighbor) (hi : ns.links[i]? = some new) :
    MergeInv st now newValidity src adj0 ns (done ++ [op])
      (linkedUp st now newValidity src new.neighbor ⟨src, ns.linklist.buf, i⟩
        (weightD st.metric adj0 src new) adj) := by
  have hasc := h0.ascending _ _ h0.entry
  have hit : adj0.findLink src new.neighbor = some ⟨src, ns.linklist.buf, i⟩ := by
    rw [findLink_eq_entryOf st now, entryOf_of_some h0.entry,
      (findLinkQuality_eq_some_iff hasc).mpr ⟨new, hi, rfl⟩, Option.map_some]
  rw [hv] at hfresh
  have hcp := inv.raised_find h0 hfresh
  have hnews : newNeighbors (done ++ [op]) = newNeighbors done ++ [new.neighbor] := by
    simp [newNeighbors, hop]
  -- the source, when its link to the neighbour is connected
  have hsource : (ns.mapLinks fun l =>
        if l.neighbor ∈ newNeighbors done then mergedLink st.metric adj0 src l else l).mapLink
        new.neighbor (connect (adj0.findLink new.neighbor src) (weightD st.metric adj0 src new))
      = ns.mapLinks fun l =>
        if l.neighbor ∈ newNeighbors (done ++ [op]) then mergedLink st.metric adj0 src l
        else l := by
    rw [NDescr.mapLink_eq_mapLinks, NDescr.mapLinks_mapLinks]
    refine NDescr.mapLinks_congr fun l hl => ?_
    simp only [Function.comp_def, neighbor_mergeIf, hnews, List.mem_append, List.mem_singleton]
    by_cases hln : l.neighbor = new.neighbor
    · have : l = new := hasc.eq_of_key_eq hl (List.mem_of_getElem? hi) hln
      subst this
      simp only [if_true, or_true]
      split <;> rfl
    · simp only [hln, if_false, or_false]
  refine ⟨?_, ?_, ?_⟩
  · rw [linkedUp]
    simp only [hcp, getElem?_modifyAt, if_true, getElem?_insertAt]
    by_cases hsrc : new.neighbor = src
    · rw [if_pos hsrc, Option.map_some, hsrc, inv.raised_source h0, ← hsource, hsrc,
        mapLink_connect]
    · rw [if_neg hsrc, inv.source, Option.map_some, hsource]
  · intro o ho hosrc
    rw [List.mem_append, List.mem_singleton] at ho
    rw [linkedUp, getElem?_modifyAt, if_neg (Ne.symm hosrc), getElem?_insertAt]
    rcases ho with ho | rfl
    · rw [if_neg (Ne.symm (hfresh o ho)), inv.visited o ho hosrc]
    · rw [if_pos hv.symm, opEntry, hop]
      simp only [attachedEntry, hit, Option.some.injEq]
      rw [raisedEntry, raisedEntry, entryOf_congr (inv.other _ (hv ▸ hosrc) hfresh)]
  · intro v hvsrc hnot
    have hnv : new.neighbor ≠ v := hv ▸ hnot op (by simp)
    rw [linkedUp, getElem?_modifyAt, if_neg (Ne.symm hvsrc), getElem?_insertAt, if_neg hnv]
    exact inv.other v hvsrc fun o ho => hnot o (by simp [ho])

omit h0 in
/-- The entry of a lost link, behind its turn. -/
theorem MergeInv.down {op : MergeOp} (hfresh : ∀ o ∈ done, o.neighbor ≠ op.neighbor)
    (hop : op.new? = none) (hgone : ∀ l ∈ ns.links, l.neighbor ≠ op.neighbor) :
    MergeInv st now newValidity src adj0 ns (done ++ [op])
      (adj.insert op.neighbor ((entryOf st now adj op.neighbor).mapLink src disconnect)) := by
  -- A removed link is none of the new ones.
  have hnews : newNeighbors (done ++ [op]) = newNeighbors done := by
    simp [newNeighbors, hop]
  refine ⟨?_, ?_, ?_⟩
  · -- The source, unless it is the neighbour that was lost.
    rw [hnews, getElem?_insertAt]
    by_cases hs : op.neighbor = src
    · rw [if_pos hs, hs, entryOf_of_some inv.source, NDescr.mapLink_of_not_mem]
      intro l hl
      obtain ⟨r, hr, rfl⟩ := List.mem_map.mp hl
      rw [neighbor_mergeIf, ← hs]
      exact hgone r hr
    · rw [if_neg hs, inv.source]
  · -- The neighbours that were visited before stay, and this one is detached.
    intro o ho hosrc
    rw [List.mem_append, List.mem_singleton] at ho
    rw [getElem?_insertAt]
    rcases ho with ho | rfl
    · rw [if_neg (Ne.symm (hfresh o ho)), inv.visited o ho hosrc]
    · rw [if_pos rfl, opEntry, hop]
      simp only [detachedEntry, entryOf_congr (inv.other _ hosrc hfresh)]
  · -- The rest was not visited.
    intro v hvsrc hnot
    rw [getElem?_insertAt, if_neg (hnot op (by simp))]
    exact inv.other v hvsrc fun o ho => hnot o (by simp [ho])

end

/-- An entry of the walk through the vector of `ns` and an old vector. -/
structure OpOk (ns : NDescr) (op : MergeOp) : Prop where
  new : ∀ new i, op.new? = some (new, i) → ns.links[i]? = some new
  gone : op.new? = none → ∀ l ∈ ns.links, l.neighbor ≠ op.neighbor

/-- The neighbour of a step with a new link is the one of the link. -/
theorem neighbor_of_new? {op : MergeOp} {new : LinkQuality} {i : Nat}
    (h : op.new? = some (new, i)) : op.neighbor = new.neighbor := by
  cases op with
  | kept a b => cases h; rfl
  | added a => cases h; rfl
  | removed b => cases h

section
variable {done : List MergeOp} {s : RTopology} {op : MergeOp}
  (h0 : MergeStart newValidity src adj0 ns)
  (inv : MergeInv st now newValidity src adj0 ns done s.adjList)
  (hfresh : ∀ o ∈ done, o.neighbor ≠ op.neighbor) (hok : OpOk ns op)
include h0 inv hfresh hok

/-- The run of `linkUp` in the loop. -/
theorem MergeInv.linkUp_run {new : LinkQuality} {i : Nat} (hop : op.new? = some (new, i)) :
    s.linkUp st now newValidity src ns.linklist.buf new i = (do
      let _ ← opWeight st.metric adj0 src op
      .ok { s.getNodeEntry st now op.neighbor with
        adjList := linkedUp st now newValidity src new.neighbor ⟨src, ns.linklist.buf, i⟩
          (weightD st.metric adj0 src new) s.adjList }) := by
  have hv := neighbor_of_new? hop
  have hfresh' : ∀ o ∈ done, o.neighbor ≠ new.neighbor := hv ▸ hfresh
  -- The link of the source that this turn attaches.
  have hi := hok.new new i hop
  have hi' : (ns.mapLinks fun l => if l.neighbor ∈ newNeighbors done then
      mergedLink st.metric adj0 src l else l).links[i]?
      = some (if new.neighbor ∈ newNeighbors done then mergedLink st.metric adj0 src new
        else new) := by
    rw [NDescr.links_mapLinks, List.getElem?_map, hi, Option.map_some]
  have hq : (if new.neighbor ∈ newNeighbors done then mergedLink st.metric adj0 src new
      else new).quality = new.quality := by
    split <;> rfl
  -- The turn is the run on the two ends, and the weight is that of the old graph.
  have hrun := linkUp_eq st now newValidity inv.source
    (NDescr.ascending_mapLinks (neighbor_mergeIf _ _) (h0.ascending _ _ h0.entry)) hi'
    (neighbor_mergeIf _ _ _) (inv.raised_ascending h0 hfresh')
  rw [NDescr.buf_mapLinks, inv.raised_linkTo h0 hfresh', hq] at hrun
  simp only [hrun, opWeight, hop, hv, weightD, weightOf]
  cases linkWeight st.metric new.quality
      ((adj0.linkAt new.neighbor src).map LinkQuality.quality) with
  | error e => rw [except_bind_error, except_bind_error]
  | ok w => rw [except_bind_ok, except_bind_ok]

/-- One turn of the loop. -/
theorem mergeStep_run :
    ∃ adj, MergeInv st now newValidity src adj0 ns (done ++ [op]) adj ∧
      s.mergeStep st now newValidity src ns.linklist.buf op = (do
        let _ ← opWeight st.metric adj0 src op
        .ok { s.getNodeEntry st now op.neighbor with
          adjList := adj, dirty := s.dirty || changes op }) := by
  have hdirty : ∀ v, (s.getNodeEntry st now v).dirty = s.dirty := fun v =>
    (getNodeEntry_frame st now s v).1
  -- One case for each kind of turn.
  cases op with
  | kept new old =>
    have hop : Diff.new? (.kept new old) = some (new.1, new.2) := rfl
    have hup := inv.linkUp_run h0 hfresh hok hop
    refine ⟨_, inv.up h0 hfresh rfl rfl (hok.new new.1 new.2 rfl), ?_⟩
    simp only [mergeStep, hup, bind_assoc, except_bind_ok, hdirty]
    rfl
  | added new =>
    have hop : Diff.new? (.added new : MergeOp) = some (new.1, new.2) := rfl
    have hup := inv.linkUp_run h0 hfresh hok hop
    refine ⟨_, inv.up h0 hfresh rfl rfl (hok.new new.1 new.2 rfl), ?_⟩
    simp only [mergeStep, hup, bind_assoc, except_bind_ok, changes, Bool.or_true]
  -- The link is gone, and so is the reference to it.
  | removed old =>
    have hasc : AscendingLinks (entryOf st now s.adjList old.neighbor).links := by
      have := inv.raised_ascending h0 hfresh
      rwa [raisedEntry, NDescr.links_updateNodeValidity] at this
    refine ⟨_, inv.down hfresh rfl (hok.gone rfl), ?_⟩
    simp only [mergeStep, linkDown_eq st now hasc, except_bind_ok, opWeight, changes,
      Bool.or_true, Diff.new?]
    rfl

end

/-- The neighbours of a walk are different. -/
abbrev Distinct (ops : List MergeOp) : Prop :=
  ops.Pairwise fun a b => a.neighbor ≠ b.neighbor

/-- In a walk through different neighbours the next one is new. -/
theorem Distinct.fresh {done ops : List MergeOp} {op : MergeOp}
    (h : Distinct (done ++ op :: ops)) : ∀ o ∈ done, o.neighbor ≠ op.neighbor :=
  fun o ho => (List.pairwise_append.mp h).2.2 o ho op List.mem_cons_self

/-- What every turn of the loop keeps holds behind the loop. `P` may speak of the part of
the walk that is done. -/
theorem mergeFold_induct {P : List MergeOp → RTopology → Prop}
    (h0 : MergeStart newValidity src adj0 ns)
    (step : ∀ done op s adj, MergeInv st now newValidity src adj0 ns done s.adjList →
      MergeInv st now newValidity src adj0 ns (done ++ [op]) adj →
      (∀ o ∈ done, o.neighbor ≠ op.neighbor) →
      (∃ w, opWeight st.metric adj0 src op = .ok w) → P done s →
      P (done ++ [op]) { s.getNodeEntry st now op.neighbor with
        adjList := adj, dirty := s.dirty || changes op }) :
    ∀ (ops done : List MergeOp) (s s' : RTopology),
      MergeInv st now newValidity src adj0 ns done s.adjList → P done s →
      (∀ op ∈ ops, OpOk ns op) → Distinct (done ++ ops) →
      ops.foldlM (mergeStep st now newValidity src ns.linklist.buf) s = .ok s' →
      MergeInv st now newValidity src adj0 ns (done ++ ops) s'.adjList ∧ P (done ++ ops) s' := by
  intro ops
  induction ops with
  -- No turn is left.
  | nil =>
    intro done s s' inv hP _ _ hs
    cases hs
    rw [List.append_nil]
    exact ⟨inv, hP⟩
  -- One turn, and the rest by induction from the state behind it.
  | cons op ops ih =>
    intro done s s' inv hP hok hd hs
    have hfresh := Distinct.fresh hd
    obtain ⟨adj, inv', hrun⟩ := mergeStep_run h0 inv hfresh (hok op List.mem_cons_self)
    rw [List.foldlM_cons, hrun, bind_assoc, bind_eq_ok] at hs
    obtain ⟨w, hw, hs⟩ := hs
    rw [List.append_cons] at hd ⊢
    exact ih (done ++ [op]) _ s' inv' (step done op s adj inv inv' hfresh ⟨w, hw⟩ hP)
      (fun o ho => hok o (List.mem_cons_of_mem _ ho)) hd hs

/-- The loop ends when the metric does not fail. -/
theorem mergeFold_ok (h0 : MergeStart newValidity src adj0 ns) :
    ∀ (ops done : List MergeOp) (s : RTopology),
      MergeInv st now newValidity src adj0 ns done s.adjList → (∀ op ∈ ops, OpOk ns op) →
      (∀ op ∈ ops, ∃ w, opWeight st.metric adj0 src op = .ok w) → Distinct (done ++ ops) →
      ∃ s', ops.foldlM (mergeStep st now newValidity src ns.linklist.buf) s = .ok s' := by
  intro ops
  induction ops with
  | nil => exact fun done s _ _ _ _ => ⟨s, rfl⟩
  | cons op ops ih =>
    intro done s inv hok hweight hd
    obtain ⟨adj, inv', hrun⟩ :=
      mergeStep_run h0 inv (Distinct.fresh hd) (hok op List.mem_cons_self)
    obtain ⟨w, hw⟩ := hweight op List.mem_cons_self
    rw [hw] at hrun
    rw [List.append_cons] at hd
    obtain ⟨s', hs'⟩ := ih (done ++ [op])
      { s.getNodeEntry st now op.neighbor with adjList := adj, dirty := s.dirty || changes op }
      inv' (fun o ho => hok o (List.mem_cons_of_mem _ ho))
      (fun o ho => hweight o (List.mem_cons_of_mem _ ho)) hd
    exact ⟨s', by rw [List.foldlM_cons, hrun]; exact hs'⟩

/-- What the loop leaves alone, and the flag it raises. -/
structure Frame (s s' : RTopology) (raised : Bool) : Prop where
  dirty : s'.dirty = (s.dirty || raised)
  locked : s'.locked = s.locked
  watched : s'.watched = s.watched
  nextBuf : s'.nextBuf = s.nextBuf

/-- The fields behind the loop, and the weights it has computed. -/
theorem mergeFold_frame (h0 : MergeStart newValidity src adj0 ns) {ops : List MergeOp}
    {s s' : RTopology} (hs0 : s.adjList = adj0) (hok : ∀ op ∈ ops, OpOk ns op)
    (hd : Distinct ops)
    (hs : ops.foldlM (mergeStep st now newValidity src ns.linklist.buf) s = .ok s') :
    MergeInv st now newValidity src adj0 ns ops s'.adjList ∧
      Frame s s' (ops.any changes) ∧
      ∀ op ∈ ops, ∃ w, opWeight st.metric adj0 src op = .ok w := by
  refine mergeFold_induct (P := fun done t => Frame s t (done.any changes) ∧
    ∀ op ∈ done, ∃ w, opWeight st.metric adj0 src op = .ok w) h0 ?_ ops [] s s'
    (by rw [hs0]; exact MergeInv.start h0) ⟨⟨by simp, rfl, rfl, rfl⟩, by simp⟩ hok hd hs
  rintro done op t adj - - - hw ⟨hf, hweights⟩
  obtain ⟨-, hlocked, hwatched, hbuf⟩ := getNodeEntry_frame st now t op.neighbor
  refine ⟨⟨?_, hlocked.trans hf.locked, hwatched.trans hf.watched, hbuf.trans hf.nextBuf⟩, ?_⟩
  · simp [hf.dirty, Bool.or_assoc]
  · intro o ho
    rw [List.mem_append, List.mem_singleton] at ho
    rcases ho with ho | rfl
    · exact hweights o ho
    · exact hw

end

/-! ### The whole loop -/

section
variable {links old : List LinkQuality}

/-- The indices do not matter for the order of the new vector. -/
theorem ascending_zipIdx (h : AscendingLinks links) :
    Ascending (fun a : LinkQuality × Nat => a.1.neighbor) links.zipIdx := by
  have := List.pairwise_map (l := links.zipIdx) (f := Prod.fst)
    (R := fun a b : LinkQuality => a.neighbor < b.neighbor)
  rw [List.zipIdx_map_fst] at this
  exact this.mp h

/-- The steps of the walk agree with the new vector: a new link stands at its index there, and the
neighbour of a lost link does not stand there at all. -/
theorem opOk_of_mem_mergeOps (hnew : AscendingLinks links) (hold : AscendingLinks old)
    {ns : NDescr} (hns : ns.links = links) {op : MergeOp} (hop : op ∈ mergeOps links old) :
    OpOk ns op := by
  constructor
  · intro new i hnew?
    have hmem : (new, i) ∈ links.zipIdx := by
      rw [← filterMap_new_threeWay (fun a : LinkQuality × Nat => a.1.neighbor)
        LinkQuality.neighbor links.zipIdx old]
      exact List.mem_filterMap.mpr ⟨op, hop, hnew?⟩
    rw [hns]
    exact List.mem_zipIdx_iff_getElem?.mp hmem
  · intro hnone l hl
    cases op with
    | kept a b => cases hnone
    | added a => cases hnone
    | removed b =>
      have hgone := ((mem_threeWay_removed (ascending_zipIdx hnew) hold).mp hop).2
      rw [hns] at hl
      obtain ⟨i, hi⟩ := List.mem_iff_getElem?.mp hl
      exact hgone (l, i) (List.mem_zipIdx_iff_getElem?.mpr hi)

/-- The walk goes through each neighbour once, because both vectors are ascending. -/
theorem distinct_mergeOps (hnew : AscendingLinks links) (hold : AscendingLinks old) :
    Distinct (mergeOps links old) :=
  (pairwise_threeWay links.zipIdx old (ascending_zipIdx hnew) hold).imp fun h => h.ne

/-- The walk has changed nothing where the two vectors have the same neighbours with the
same qualities. -/
theorem any_changes_eq_false_iff (hnew : AscendingLinks links) (hold : AscendingLinks old) :
    (mergeOps links old).any changes = false ↔ links.map shape = old.map shape := by
  have hzip := ascending_zipIdx hnew
  constructor
  · intro h
    have hkept : ∀ op ∈ mergeOps links old,
        op.new?.map (fun a => shape a.1) = op.old?.map shape := by
      intro op hop
      have hno := List.any_eq_false.mp h op hop
      cases op with
      | kept a b =>
        have hkey := key_eq_of_kept _ _ a b hop
        simp only [changes, decide_eq_true_eq, not_not] at hno
        simp only [Diff.new?, Diff.old?, Option.map_some, shape, hno]
        rw [hkey]
      | added a => simp [changes] at hno
      | removed b => simp [changes] at hno
    -- The new and the old vector are the two projections of the walk.
    calc links.map shape
        = (links.zipIdx.map Prod.fst).map shape := by rw [List.zipIdx_map_fst]
      _ = (mergeOps links old).filterMap fun op => op.new?.map fun a => shape a.1 := by
          rw [List.map_map, ← List.map_filterMap, mergeOps, filterMap_new_threeWay]
          rfl
      _ = (mergeOps links old).filterMap fun op => op.old?.map shape :=
          List.filterMap_congr hkept
      _ = old.map shape := by
          rw [← List.map_filterMap, mergeOps, filterMap_old_threeWay]
  · intro h
    have hback : ∀ a ∈ links, ∃ b ∈ old, shape b = shape a := fun a ha =>
      List.mem_map.mp (h ▸ List.mem_map_of_mem ha)
    have hforth : ∀ b ∈ old, ∃ a ∈ links, shape a = shape b := fun b hb =>
      List.mem_map.mp (h ▸ List.mem_map_of_mem hb)
    rw [List.any_eq_false]
    intro op hop
    cases op with
    | kept a b =>
      obtain ⟨ha, hb, hkey⟩ := (mem_threeWay_kept hzip hold).mp hop
      obtain ⟨b', hb', hshape⟩ := hback a.1 (List.fst_mem_of_mem_zipIdx ha)
      have hbb : b' = b := hold.eq_of_key_eq hb' hb ((congrArg Prod.fst hshape).trans hkey)
      subst hbb
      have hq : a.1.quality = b'.quality := (congrArg Prod.snd hshape).symm
      simp [changes, hq]
    | added a =>
      obtain ⟨ha, hno⟩ := (mem_threeWay_added hzip hold).mp hop
      obtain ⟨b, hb, hshape⟩ := hback a.1 (List.fst_mem_of_mem_zipIdx ha)
      exact absurd (congrArg Prod.fst hshape).symm (hno b hb)
    | removed b =>
      obtain ⟨hb, hno⟩ := (mem_threeWay_removed hzip hold).mp hop
      obtain ⟨a, ha, hshape⟩ := hforth b hb
      obtain ⟨i, hi⟩ := List.mem_iff_getElem?.mp ha
      exact absurd (congrArg Prod.fst hshape) (hno (a, i) (List.mem_zipIdx_iff_getElem?.mpr hi))

/-- The new links of the walk are those of the packet, in their order. -/
theorem newNeighbors_mergeOps (links old : List LinkQuality) :
    newNeighbors (mergeOps links old) = links.map LinkQuality.neighbor := by
  have h := congrArg (List.map fun a : LinkQuality × Nat => a.1.neighbor)
    (filterMap_new_threeWay (fun a : LinkQuality × Nat => a.1.neighbor)
      LinkQuality.neighbor links.zipIdx old)
  rw [List.map_filterMap] at h
  refine h.trans ?_
  conv_rhs => rw [← List.zipIdx_map_fst 0 links, List.map_map]
  rfl

end

/-- The map `adj` behind the loop, and behind the update of the name of the source. The
entry `ns` of the source in front of the loop has its new links. -/
structure Merged (st : Station) (now newValidity : AbsTime) (src : NodeId) (adj0 : AdjList)
    (ns : NDescr) (old : List LinkQuality) (name : List UInt8) (adj : AdjList) : Prop where
  source : adj[src]? = some { ns.mapLinks (mergedLink st.metric adj0 src) with nodeName := name }
  attached : ∀ l ∈ ns.links, l.neighbor ≠ src →
    adj[l.neighbor]? = some (attachedEntry st now newValidity src adj0 l)
  detached : ∀ l ∈ old, (∀ r ∈ ns.links, r.neighbor ≠ l.neighbor) → l.neighbor ≠ src →
    adj[l.neighbor]? = some (detachedEntry st now src adj0 l.neighbor)
  other : ∀ v, v ≠ src → (∀ l ∈ ns.links, l.neighbor ≠ v) → (∀ l ∈ old, l.neighbor ≠ v) →
    adj[v]? = adj0[v]?

section
variable {st : Station} {now newValidity : AbsTime} {src : NodeId} {adj0 adj : AdjList}
  {ns : NDescr} {old : List LinkQuality}

/-- The walk is over. -/
theorem MergeInv.merged (hnew : AscendingLinks ns.links) (hold : AscendingLinks old)
    (inv : MergeInv st now newValidity src adj0 ns (mergeOps ns.links old) adj) :
    Merged st now newValidity src adj0 ns old ns.nodeName adj := by
  have hzip := ascending_zipIdx hnew
  refine ⟨?_, ?_, ?_, ?_⟩
  · rw [inv.source, newNeighbors_mergeOps, Option.some.injEq]
    exact NDescr.mapLinks_congr fun l hl => if_pos (List.mem_map_of_mem hl)
  · intro l hl hsrc
    obtain ⟨i, hi⟩ := List.mem_iff_getElem?.mp hl
    have hmem : (l, i) ∈ ns.links.zipIdx := List.mem_zipIdx_iff_getElem?.mpr hi
    by_cases hkept : ∃ r ∈ old, l.neighbor = r.neighbor
    · obtain ⟨r, hr, hlr⟩ := hkept
      exact inv.visited _ ((mem_threeWay_kept hzip hold).mpr ⟨hmem, hr, hlr⟩) hsrc
    · have hadded : ∀ r ∈ old, l.neighbor ≠ r.neighbor := fun r hr hlr => hkept ⟨r, hr, hlr⟩
      exact inv.visited _ ((mem_threeWay_added hzip hold).mpr ⟨hmem, hadded⟩) hsrc
  · intro l hl hgone hsrc
    refine inv.visited _ ((mem_threeWay_removed hzip hold).mpr ⟨hl, fun a ha => ?_⟩) hsrc
    exact hgone a.1 (List.mem_of_getElem? (List.mem_zipIdx_iff_getElem?.mp ha))
  · intro v hsrc hnotNew hnotOld
    refine inv.other v hsrc fun op hop hv => ?_
    rcases key_mem_of_mem_threeWay hop with ⟨a, ha, hk⟩ | ⟨r, hr, hk⟩
    · exact hnotNew a.1 (List.mem_of_getElem? (List.mem_zipIdx_iff_getElem?.mp ha)) (hk.trans hv)
    · exact hnotOld r hr (hk.trans hv)

end

/-! ### The packet -/

/-- The links that `feed` reads from a packet ascend. -/
theorem parseLinks_ascending (buf : Buffer) :
    ∀ (n addr : Nat) (prev : Option NodeId) (ls : List LinkQuality),
      parseLinks buf n addr prev = .ok ls →
        AscendingLinks ls ∧ (∀ m ∈ prev, ∀ l ∈ ls, m < l.neighbor) ∧ ∀ l ∈ ls, l.quality ≠ 0 := by
  intro n
  induction n with
  | zero =>
    intro addr prev ls h
    cases h
    exact ⟨List.Pairwise.nil, by simp, by simp⟩
  | succ n ih =>
    intro addr prev ls h
    simp only [parseLinks] at h
    split at h
    · cases h
    · rename_i hq
      split at h
      · cases h
      · rename_i hprev
        obtain ⟨rest, hrest, hls⟩ := bind_eq_ok.mp h
        cases hls
        -- `prev` carries the lower bound from one turn to the next.
        obtain ⟨hasc, hlt, hne⟩ := ih _ _ _ hrest
        refine ⟨List.pairwise_cons.mpr ⟨hlt _ rfl, hasc⟩, ?_, ?_⟩
        · rintro m rfl l hl
          have hm : m < NodeId.fromArray (buf.read addr NodeId.size) := by
            simpa using hprev
          rcases List.mem_cons.mp hl with rfl | hl
          · exact hm
          · exact hm.trans (hlt _ rfl l hl)
        · intro l hl
          rcases List.mem_cons.mp hl with rfl | hl
          · exact hq
          · exact hne l hl

/-- The packet passes the two size checks of `feed`. -/
def SizeOk (p : BasePacket) : Prop :=
  TopoPacket.offsetLinks + 1 ≤ p.size ∧
    TopoPacket.offsetLinks + TopoPacket.getNumLinks p * TopoPacket.linkSize ≤ p.size

instance (p : BasePacket) : Decidable (SizeOk p) := inferInstanceAs (Decidable (_ ∧ _))

/-- The run of `feed` on a packet that passes the size checks. -/
theorem feed_run (st : Station) (now : AbsTime) {s : RTopology} {p : BasePacket}
    (hlocked : s.locked = false) (hp : SizeOk p) (hval : 0 < TopoPacket.getValidity p) :
    s.feed st now p = (do
      let links ← parseLinks p.buffer (TopoPacket.getNumLinks p) TopoPacket.offsetLinks none
      let s ← (s.getNodeEntry st now (SrcPacket.getSrc p)).mergeLinks st now
        (now + TopoPacket.getValidity p) p links
      if s.dirty then s.updateTopology st now else .ok s) := by
  unfold feed
  rw [hlocked, if_neg (by simp), if_neg (not_lt.mpr hp.1)]
  simp only
  rw [if_neg (not_le.mpr hval), if_neg (not_lt.mpr hp.2)]

/-- What `feed` can do with a packet that passes the size checks. -/
theorem feed_cases {st : Station} {now : AbsTime} {s s' : RTopology} {p : BasePacket}
    (hp : SizeOk p) (h : s.feed st now p = .ok s') :
    (s.locked = true ∧ s' = s) ∨
    (s.locked = false ∧ 0 < TopoPacket.getValidity p ∧ ∃ links s1,
      parseLinks p.buffer (TopoPacket.getNumLinks p) TopoPacket.offsetLinks none = .ok links ∧
      (s.getNodeEntry st now (SrcPacket.getSrc p)).mergeLinks st now
        (now + TopoPacket.getValidity p) p links = .ok s1 ∧
      (if s1.dirty then s1.updateTopology st now else .ok s1) = .ok s') := by
  cases hlocked : s.locked with
  | true =>
    rw [feed, if_pos hlocked] at h
    cases h
    exact .inl ⟨rfl, rfl⟩
  | false =>
    refine .inr ⟨rfl, ?_⟩
    by_cases hval : 0 < TopoPacket.getValidity p
    · rw [feed_run st now hlocked hp hval, bind_eq_ok] at h
      obtain ⟨links, hlinks, h⟩ := h
      obtain ⟨s1, hs1, h⟩ := bind_eq_ok.mp h
      exact ⟨hval, links, s1, hlinks, hs1, h⟩
    · rw [feed, hlocked, if_neg (by simp), if_neg (not_lt.mpr hp.1)] at h
      simp only at h
      rw [if_pos (not_lt.mp hval)] at h
      cases h

/-! ### From the packet to the map -/

/-- The entry of the source in front of the loop. -/
def swappedEntry (s : RTopology) (newValidity : AbsTime) (links : List LinkQuality)
    (ns : NDescr) : NDescr :=
  { ns.updateNodeValidity newValidity with
    edgeValidity := newValidity
    linklist := { buf := s.nextBuf, links := links } }

section
variable {st : Station} {now newValidity : AbsTime} {s : RTopology} {p : BasePacket}
  {ns : NDescr} {links : List LinkQuality}

/-- The swap of the vectors is the start of the loop: the source has the new vector and a validity
that is not in front of the new one. -/
theorem mergeStart_swapLinks (newValidity : AbsTime) {src : NodeId} (hs : s.adjList[src]? = some ns)
    (hasc : AllAscending s.adjList) (hnew : AscendingLinks links) :
    MergeStart newValidity src (s.swapLinks src newValidity links).adjList
      (swappedEntry s newValidity links ns) where
  entry := by
    simp only [swapLinks, modifyNode, getElem?_modifyAt, if_true, hs, Option.map_some]
    rfl
  ascending := by
    intro v nd hv
    simp only [swapLinks, modifyNode, getElem?_modifyAt] at hv
    split at hv
    · rename_i hsrc
      subst hsrc
      rw [hs] at hv
      cases hv
      exact hnew
    · exact hasc v nd hv
  validity := by
    simp only [swappedEntry, NDescr.nodeValidity_updateNodeValidity]
    exact le_max_right _ _

/-- The fields behind the update of the name. -/
theorem updateName_frame (s : RTopology) (src : NodeId) (p : BasePacket) :
    Frame s (s.updateName src p).1 false := by
  unfold updateName
  split <;> exact ⟨by simp [modifyNode], rfl, rfl, rfl⟩

/-- The name of the source behind `feed`. -/
def nameBehind (p : BasePacket) (name : List UInt8) : List UInt8 := (packetName p).getD name

/-- Only the entry of the source gets another name, the one in the packet if there is one. -/
theorem updateName_lookup (s : RTopology) (src v : NodeId) (p : BasePacket) :
    (s.updateName src p).1.adjList[v]? = if v = src then
      s.adjList[v]?.map (fun nd => { nd with nodeName := nameBehind p nd.nodeName })
      else s.adjList[v]? := by
  unfold updateName nameBehind
  cases hname : packetName p with
  | none =>
    by_cases hv : v = src
    · simp [hv]
    · simp [hv]
  | some name =>
    by_cases hv : v = src
    · subst hv
      cases hs : s.adjList[v]? with
      | none => simp [hs]
      | some nd => simp [modifyNode, hs]
    · cases hs : s.adjList[src]? with
      | none => simp [hv]
      | some nd => simp [modifyNode, hv, Ne.symm hv]

/-- Telling the observers changes no entry. -/
theorem emit_adjList (s : RTopology) (doc : List XmlElement) :
    (s.emit doc).adjList = s.adjList := by
  unfold emit
  split <;> rfl

/-- Nor does it change what the frame has. -/
theorem emit_frame (s : RTopology) (doc : List XmlElement) : Frame s (s.emit doc) false := by
  unfold emit
  split <;> exact ⟨by simp, rfl, rfl, rfl⟩

/-- Two parts of the merge: flags that are raised once stay raised. -/
theorem Frame.trans {s t u : RTopology} {a b : Bool} (h : Frame s t a) (h' : Frame t u b) :
    Frame s u (a || b) :=
  ⟨by rw [h'.dirty, h.dirty, Bool.or_assoc], h'.locked.trans h.locked,
    h'.watched.trans h.watched, h'.nextBuf.trans h.nextBuf⟩

/-- The name and the document behind the loop. -/
def finishMerge (src : NodeId) (p : BasePacket) (ops : List MergeOp) (s : RTopology) :
    RTopology :=
  let (s', nameDoc) := s.updateName src p
  let doc := ops.filterMap (edgeElement src) ++ nameDoc
  if doc.isEmpty then s' else s'.emit doc

/-- `mergeLinks` is a fold over the steps of the walk between the swap of the vectors and the update
of the name. The proofs about it start from here. -/
theorem mergeLinks_eq (hs : s.adjList[SrcPacket.getSrc p]? = some ns) :
    s.mergeLinks st now newValidity p links = (do
      let s' ← (mergeOps links ns.links).foldlM
        (mergeStep st now newValidity (SrcPacket.getSrc p) s.nextBuf)
        (s.swapLinks (SrcPacket.getSrc p) newValidity links)
      .ok (finishMerge (SrcPacket.getSrc p) p (mergeOps links ns.links) s')) := by
  simp only [mergeLinks, linksOf_of_some hs]
  rfl

/-- The end of the merge raises no flag. -/
theorem finishMerge_frame (src : NodeId) (p : BasePacket) (ops : List MergeOp)
    (s : RTopology) : Frame s (finishMerge src p ops s) false := by
  unfold finishMerge
  have h := updateName_frame s src p
  simp only
  split
  · exact h
  · exact h.trans (emit_frame _ _)

/-- The map behind the merge has the new name, and the document for the observers does not matter.
-/
theorem finishMerge_adjList (src : NodeId) (p : BasePacket) (ops : List MergeOp)
    (s : RTopology) :
    (finishMerge src p ops s).adjList = (s.updateName src p).1.adjList := by
  unfold finishMerge
  simp only
  split
  · rfl
  · exact emit_adjList _ _

/-- A part of the map that is not the source keeps its name. -/
theorem Merged.rename {src : NodeId} {adj0 adj adj' : AdjList} {old : List LinkQuality}
    {name : List UInt8} {rename : List UInt8 → List UInt8}
    (h : Merged st now newValidity src adj0 ns old name adj)
    (hadj : ∀ v, adj'[v]? = if v = src then
      adj[v]?.map (fun nd => { nd with nodeName := rename nd.nodeName }) else adj[v]?) :
    Merged st now newValidity src adj0 ns old (rename name) adj' where
  source := by
    rw [hadj, if_pos rfl, h.source]
    rfl
  attached := fun l hl hsrc => by rw [hadj, if_neg hsrc, h.attached l hl hsrc]
  detached := fun l hl hgone hsrc => by rw [hadj, if_neg hsrc, h.detached l hl hgone hsrc]
  other := fun v hsrc hnew hold => by rw [hadj, if_neg hsrc, h.other v hsrc hnew hold]

/-- The effect of `mergeLinks`, and the weights it has computed. -/
theorem mergeLinks_spec {s' : RTopology} (hs : s.adjList[SrcPacket.getSrc p]? = some ns)
    (hasc : AllAscending s.adjList) (hnew : AscendingLinks links)
    (h : s.mergeLinks st now newValidity p links = .ok s') :
    Merged st now newValidity (SrcPacket.getSrc p)
        (s.swapLinks (SrcPacket.getSrc p) newValidity links).adjList
        (swappedEntry s newValidity links ns) ns.links (nameBehind p ns.nodeName) s'.adjList ∧
      Frame { s with nextBuf := s.nextBuf + 1 } s' ((mergeOps links ns.links).any changes) ∧
      ∀ l ∈ links, ∃ w, weightOf st.metric
        (s.swapLinks (SrcPacket.getSrc p) newValidity links).adjList (SrcPacket.getSrc p) l
          = .ok w := by
  -- The merge is a loop of turns and a last step.
  rw [mergeLinks_eq hs, bind_eq_ok] at h
  obtain ⟨t, ht, h⟩ := h
  cases h
  have hstart := mergeStart_swapLinks newValidity hs hasc hnew
  have hold := hasc _ _ hs
  obtain ⟨inv, hframe, hweight⟩ := mergeFold_frame hstart rfl
    (fun op hop => opOk_of_mem_mergeOps hnew hold rfl hop) (distinct_mergeOps hnew hold) ht
  refine ⟨?_, ?_, ?_⟩
  · -- The entries are those behind the loop, up to the name.
    have hmerged := MergeInv.merged
      (show AscendingLinks (swappedEntry s newValidity links ns).links from hnew) hold inv
    have hname : (swappedEntry s newValidity links ns).nodeName = ns.nodeName := by
      simp [swappedEntry]
    rw [hname] at hmerged
    refine hmerged.rename fun v => ?_
    rw [finishMerge_adjList, updateName_lookup]
  · -- The frame is the one of the swap, the loop and the last step together.
    have hsw : Frame { s with nextBuf := s.nextBuf + 1 }
        (s.swapLinks (SrcPacket.getSrc p) newValidity links) false :=
      ⟨by simp [swapLinks, modifyNode], rfl, rfl, rfl⟩
    have := (hsw.trans hframe).trans (finishMerge_frame (SrcPacket.getSrc p) p
      (mergeOps links ns.links) t)
    simpa using this
  · -- Every link of the packet is in some turn of the loop, and that turn has its weight.
    intro l hl
    obtain ⟨i, hi⟩ := List.mem_iff_getElem?.mp hl
    have hmem : (l, i) ∈ (mergeOps links ns.links).filterMap Diff.new? := by
      rw [mergeOps, filterMap_new_threeWay]
      exact List.mem_zipIdx_iff_getElem?.mpr hi
    obtain ⟨op, hop, hnew?⟩ := List.mem_filterMap.mp hmem
    obtain ⟨w, hw⟩ := hweight op hop
    rw [opWeight, hnew?] at hw
    exact ⟨w, hw⟩

/-- `mergeLinks` returns where the metric does not fail. -/
theorem mergeLinks_ok (hs : s.adjList[SrcPacket.getSrc p]? = some ns)
    (hasc : AllAscending s.adjList) (hnew : AscendingLinks links)
    (hw : ∀ l ∈ links, ∃ w, weightOf st.metric
      (s.swapLinks (SrcPacket.getSrc p) newValidity links).adjList (SrcPacket.getSrc p) l
        = .ok w) :
    ∃ s', s.mergeLinks st now newValidity p links = .ok s' := by
  have hstart := mergeStart_swapLinks newValidity hs hasc hnew
  have hold := hasc _ _ hs
  -- A turn needs a weight only for a link of the packet.
  have hweight : ∀ op ∈ mergeOps links ns.links, ∃ w, opWeight st.metric
      (s.swapLinks (SrcPacket.getSrc p) newValidity links).adjList (SrcPacket.getSrc p) op
        = .ok w := by
    intro op hop
    cases hnew? : op.new? with
    | none => exact ⟨0, by simp only [opWeight, hnew?]⟩
    | some a =>
      have hns : (swappedEntry s newValidity links ns).links = links := rfl
      obtain ⟨w, hw'⟩ := hw a.1 (List.mem_of_getElem?
        ((opOk_of_mem_mergeOps hnew hold hns hop).new a.1 a.2 hnew?))
      exact ⟨w, by simp only [opWeight, hnew?]; exact hw'⟩
  have hinv : MergeInv st now newValidity (SrcPacket.getSrc p) _ _ [] _ := MergeInv.start hstart
  obtain ⟨t, ht⟩ := mergeFold_ok hstart (mergeOps links ns.links) []
    (s.swapLinks (SrcPacket.getSrc p) newValidity links) hinv
    (fun op hop => opOk_of_mem_mergeOps hnew hold rfl hop) hweight
    (distinct_mergeOps hnew hold)
  refine ⟨finishMerge (SrcPacket.getSrc p) p (mergeOps links ns.links) t, ?_⟩
  rw [mergeLinks_eq hs]
  exact bind_eq_ok.mpr ⟨t, ht, rfl⟩

end

end Awds.Proofs
