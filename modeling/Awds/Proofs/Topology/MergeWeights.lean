import Awds.Proofs.Topology.Merge

/-!
# `Awds.Proofs.Topology.MergeWeights`: the weights behind the merge, in any state

`Merged` describes the merge where all link vectors ascend. A packet that fails the second size
check leaves a vector of equal links behind, and the merge works on such vectors as well: its
turns keep the neighbours and the qualities (`SameLinks`), and what `findLinkQuality` finds does
not depend on anything else. A new link and the reverse link that is found for it get their
weight in one turn, and no later turn changes it, because the links of the packet ascend.

`mergeLinks_weighs` is this for the whole merge.
-/

set_option autoImplicit false

namespace Awds.Proofs

open Std (ExtTreeMap)
open Awds.Lib Awds.AdjList Awds.RTopology

/-! ### What `findLinkQuality` depends on -/

/-- `findLinkQuality` reads the neighbours only. -/
theorem findLinkQuality_congr {nd nd' : NDescr} (h : nd'.links.map shape = nd.links.map shape)
    (id : NodeId) : nd'.findLinkQuality id = nd.findLinkQuality id := by
  have hidx : nd'.links.findIdx (fun l => !decide (l.neighbor < id)) =
      nd.links.findIdx (fun l => !decide (l.neighbor < id)) := by
    have hmap := congrArg (List.findIdx fun x => !decide (x.1 < id)) h
    rw [List.findIdx_map, List.findIdx_map] at hmap
    exact hmap
  unfold NDescr.findLinkQuality
  rw [hidx]
  dsimp only
  have hget := congrArg
    (fun shapes => shapes[nd.links.findIdx fun l => !decide (l.neighbor < id)]?) h
  simp only [List.getElem?_map] at hget
  cases hl' : nd'.links[nd.links.findIdx fun l => !decide (l.neighbor < id)]? with
  | none =>
    rw [hl', Option.map_none] at hget
    rw [Option.map_eq_none_iff.mp hget.symm]
  | some l' =>
    rw [hl', Option.map_some] at hget
    obtain ⟨l, hl, hshape⟩ := Option.map_eq_some_iff.mp hget.symm
    have hneighbor : l.neighbor = l'.neighbor := congrArg Prod.fst hshape
    simp only [hl, hneighbor]

/-- The weight of a link. -/
def weightAt (adj : AdjList) (p : LinkPtr) : Option UInt32 :=
  (adj.link? p).map LinkQuality.metricWeight

/-- The quality of the link `v → id` that `findLinkQuality` finds. -/
def foundQuality (adj : AdjList) (v id : NodeId) : Option UInt16 :=
  (adj.findLink v id).bind fun q => (adj.link? q).map LinkQuality.quality

/-- The weight that `calculate` gives the new link `l` of `src`. -/
def foundWeight (m : Metric) (adj : AdjList) (src : NodeId) (l : LinkQuality) : Result UInt32 :=
  linkWeight m l.quality (foundQuality adj l.neighbor src)

/-- The links of `adj` are those of `adj0`, up to their counterparts and their weights. An entry
that is new has no links. -/
structure SameLinks (adj0 adj : AdjList) : Prop where
  old : ∀ (v : NodeId) (nd : NDescr), adj0[v]? = some nd → ∃ nd', adj[v]? = some nd' ∧
    nd'.linklist.buf = nd.linklist.buf ∧ nd'.links.map shape = nd.links.map shape
  new : ∀ v : NodeId, adj0[v]? = none → adj.linksOf v = []

section
variable {adj0 adj adj' : AdjList}

/-- Nothing has been written yet. -/
theorem SameLinks.refl (adj : AdjList) : SameLinks adj adj where
  old := fun _ nd h => ⟨nd, h, rfl, rfl⟩
  new := fun _ h => by simp only [linksOf, h]

/-- Two parts of the merge that keep the links keep them together. -/
theorem SameLinks.trans (h : SameLinks adj0 adj) (h' : SameLinks adj adj') :
    SameLinks adj0 adj' where
  old := by
    intro v nd hv
    obtain ⟨nd1, h1, hbuf1, hlinks1⟩ := h.old v nd hv
    obtain ⟨nd2, h2, hbuf2, hlinks2⟩ := h'.old v nd1 h1
    exact ⟨nd2, h2, hbuf2.trans hbuf1, hlinks2.trans hlinks1⟩
  new := by
    intro v hv
    have hnone := h.new v hv
    cases h1 : adj[v]? with
    | none => exact h'.new v h1
    | some nd1 =>
      obtain ⟨nd2, h2, -, hlinks2⟩ := h'.old v nd1 h1
      rw [linksOf_of_some h1] at hnone
      rw [hnone] at hlinks2
      rw [linksOf_of_some h2]
      exact List.map_eq_nil_iff.mp hlinks2

/-- Searches see neighbours and buffers only, so they find the same. -/
theorem SameLinks.findLink_eq (h : SameLinks adj0 adj) (v id : NodeId) :
    adj.findLink v id = adj0.findLink v id := by
  cases h0 : adj0[v]? with
  | none =>
    have hnone := h.new v h0
    simp only [findLink, h0]
    cases hv : adj[v]? with
    | none => rfl
    | some nd =>
      rw [linksOf_of_some hv] at hnone
      simp only [NDescr.findLinkQuality, hnone]
      rfl
  | some nd =>
    obtain ⟨nd', hv, hbuf, hlinks⟩ := h.old v nd h0
    simp only [findLink, h0, hv, findLinkQuality_congr hlinks, hbuf]

/-- A pointer resolves to the same neighbour and the same quality. -/
theorem SameLinks.link?_shape (h : SameLinks adj0 adj) (p : LinkPtr) :
    (adj.link? p).map shape = (adj0.link? p).map shape := by
  unfold link?
  cases h0 : adj0[p.owner]? with
  | none =>
    have hnone := h.new p.owner h0
    cases hv : adj[p.owner]? with
    | none => rfl
    | some nd =>
      rw [linksOf_of_some hv] at hnone
      simp [hnone]
  | some nd =>
    obtain ⟨nd', hv, hbuf, hlinks⟩ := h.old p.owner nd h0
    simp only [hv, hbuf]
    split
    · rw [← List.getElem?_map, ← List.getElem?_map, hlinks]
    · rfl

/-- The quality behind a counterpart is the same, too. -/
theorem SameLinks.foundQuality_eq (h : SameLinks adj0 adj) (v id : NodeId) :
    foundQuality adj v id = foundQuality adj0 v id := by
  unfold foundQuality
  rw [h.findLink_eq]
  cases adj0.findLink v id with
  | none => rfl
  | some q =>
    have hq := congrArg (Option.map Prod.snd) (h.link?_shape q)
    rw [Option.map_map, Option.map_map] at hq
    exact hq

/-- Links are not changed when the other fields of an entry are, or when it is created. -/
theorem sameLinks_insert (st : Station) (now : AbsTime) (adj : AdjList) (v : NodeId)
    {nd : NDescr} (hnd : nd.linklist = (entryOf st now adj v).linklist) :
    SameLinks adj (adj.insert v nd) ∧ ∀ p, (AdjList.link? (adj.insert v nd) p) = adj.link? p := by
  refine ⟨⟨fun u nu hu => ?_, fun u hu => ?_⟩, fun p => ?_⟩
  · -- The entry of `v` has the links of the old one.
    by_cases hvu : v = u
    · subst hvu
      rw [entryOf_of_some hu] at hnd
      refine ⟨nd, by rw [getElem?_insertAt, if_pos rfl], by rw [hnd], ?_⟩
      rw [NDescr.links, hnd]
      rfl
    · exact ⟨nu, by rw [getElem?_insertAt, if_neg hvu, hu], rfl, rfl⟩
  · -- A node without an entry gets one without links.
    unfold linksOf
    by_cases hvu : v = u
    · subst hvu
      rw [getElem?_insertAt, if_pos rfl]
      simp only [NDescr.links, hnd, entryOf, hu]
      rfl
    · rw [getElem?_insertAt, if_neg hvu, hu]
  · -- A pointer into the links of `v` reads the same link.
    unfold link?
    by_cases hvp : v = p.owner
    · subst hvp
      rw [getElem?_insertAt, if_pos rfl]
      simp only [NDescr.links, hnd, entryOf]
      cases adj[p.owner]? with
      | none => simp [NDescr.new]
      | some nu => rfl
    · rw [getElem?_insertAt, if_neg hvp]

/-- A write that keeps the neighbour and the quality. -/
theorem sameLinks_write {f : LinkQuality → LinkQuality} (hf : ∀ l, shape (f l) = shape l)
    (adj : AdjList) (p : LinkPtr) : SameLinks adj (write adj p f) where
  old := by
    intro v nd hv
    unfold write
    rw [getElem?_modifyAt, hv]
    split
    · refine ⟨nd.modifyLink p.idx f, rfl, rfl, ?_⟩
      rw [NDescr.links_modifyLink, map_shape_modify hf]
    · exact ⟨nd, rfl, rfl, rfl⟩
  new := by
    intro v hv
    unfold write linksOf
    rw [getElem?_modifyAt, hv, Option.map_none, ite_self]

/-- A write changes the weight in its own place only. -/
theorem weightAt_write {p q : LinkPtr} (f : LinkQuality → LinkQuality) (hne : ¬ SamePlace p q) :
    weightAt (write adj p f) q = weightAt adj q := by
  rw [weightAt, link?_write_of_ne hne, weightAt]

/-- What `findLink` returns can be read. -/
theorem link?_of_findLink {v id : NodeId} {q : LinkPtr} (h : adj.findLink v id = some q) :
    q.owner = v ∧ ∃ r, adj.link? q = some r ∧ r.neighbor = id := by
  unfold findLink at h
  split at h
  · cases h
  · rename_i nd hv
    obtain ⟨i, hi, rfl⟩ := Option.map_eq_some_iff.mp h
    unfold NDescr.findLinkQuality at hi
    simp only at hi
    split at hi
    · cases hi
    · rename_i r hr
      split at hi
      · rename_i hid
        cases hi
        exact ⟨rfl, r, link?_eq_some_iff.mpr ⟨nd, hv, rfl, hr⟩, hid⟩
      · cases hi

end

/-! ### One turn -/

/-- The new link `it` and the reverse link that is found for it have got the weight `w`. -/
structure PairWeighs (adj0 : AdjList) (it : LinkPtr) (cp : Option LinkPtr) (w : UInt32)
    (adj : AdjList) : Prop where
  same : SameLinks adj0 adj
  own : weightAt adj it = some w
  reverse : ∀ q ∈ cp, weightAt adj q = some w
  other : ∀ p, ¬ SamePlace it p → (∀ q ∈ cp, ¬ SamePlace q p) → weightAt adj p = weightAt adj0 p

section
variable {adj : AdjList} {it : LinkPtr} {l : LinkQuality}

/-- Connecting a link keeps its neighbour and its quality. -/
theorem shape_connect (cp : Option LinkPtr) (w : UInt32) (l : LinkQuality) :
    shape (connect cp w l) = shape l := rfl

/-- A connected link has the weight that it was connected with. -/
theorem weightAt_connect (h : adj.link? it = some l) (cp : Option LinkPtr) (w : UInt32) :
    weightAt (write adj it (connect cp w)) it = some w := by
  rw [weightAt, link?_write_self h]
  rfl

/-- Connecting the link `it` of `src` with the link that is found from `v` back to it. -/
theorem connect_weighs (m : Metric) {v : NodeId} (h : adj.link? it = some l) :
    ∃ next : UInt32 → AdjList,
      (do let adj ← adj.setCounterpart it (adj.findLink v it.owner)
          m.calculate adj it) = (do
        let w ← linkWeight m l.quality (foundQuality adj v it.owner)
        .ok (next w)) ∧
      ∀ w, linkWeight m l.quality (foundQuality adj v it.owner) = .ok w →
        PairWeighs adj it (adj.findLink v it.owner) w (next w) := by
  unfold foundQuality
  cases hf : adj.findLink v it.owner with
  | none =>
    -- no reverse link: the weight does not depend on the metric
    refine ⟨fun w => write adj it (connect none w), connect_none m h, fun w hw => ?_⟩
    refine ⟨sameLinks_write (shape_connect _ _) _ _, weightAt_connect h _ _, ?_, ?_⟩
    · intro q hq
      cases hq
    · exact fun p hp _ => weightAt_write _ hp
  | some q =>
    obtain ⟨hown, r, hr, -⟩ := link?_of_findLink hf
    rw [Option.bind_some, hr, Option.map_some]
    by_cases hself : SamePlace it q
    · -- the link is its own reverse link
      have hptr : q = it := by
        obtain ⟨nd, hnd, hbuf, -⟩ := link?_eq_some_iff.mp h
        obtain ⟨nd', hnd', hbuf', -⟩ := link?_eq_some_iff.mp hr
        rw [← hself.1, hnd] at hnd'
        cases hnd'
        cases it
        cases q
        exact LinkPtr.mk.injEq .. ▸ ⟨hself.1.symm, hbuf'.symm.trans hbuf, hself.2.symm⟩
      subst hptr
      rw [h] at hr
      cases hr
      refine ⟨fun w => write adj q (connect (some q) w), connect_self m h, fun w _ => ?_⟩
      refine ⟨sameLinks_write (shape_connect _ _) _ _, weightAt_connect h _ _, ?_, ?_⟩
      · rintro _ ⟨⟩
        exact weightAt_connect h _ _
      · exact fun p hp _ => weightAt_write _ hp
    · have hback : ¬ SamePlace q it := fun hs => hself ⟨hs.1.symm, hs.2.symm⟩
      refine ⟨fun w => write (write adj q (connect (some it) w)) it (connect (some q) w),
        connect_some m h hr hself, fun w _ => ?_⟩
      refine ⟨(sameLinks_write (shape_connect _ _) _ _).trans
        (sameLinks_write (shape_connect _ _) _ _), ?_, ?_, ?_⟩
      · exact weightAt_connect ((link?_write_of_ne hback _).trans h) _ _
      · rintro _ ⟨⟩
        rw [weightAt_write _ hself]
        exact weightAt_connect hr _ _
      · intro p hp hq
        rw [weightAt_write _ hp, weightAt_write _ (hq q rfl)]

end

section
variable (st : Station) (now newValidity : AbsTime) (src : NodeId) {s : RTopology}

/-- The run of `linkUp`: it fails only where the metric does. -/
theorem linkUp_weighs {buf i : Nat} {new l : LinkQuality}
    (h : s.adjList.link? ⟨src, buf, i⟩ = some l) (hq : l.quality = new.quality) :
    ∃ next : UInt32 → RTopology,
      s.linkUp st now newValidity src buf new i = (do
        let w ← foundWeight st.metric s.adjList src new
        .ok (next w)) ∧
      ∀ w, foundWeight st.metric s.adjList src new = .ok w →
        PairWeighs s.adjList ⟨src, buf, i⟩ (s.adjList.findLink new.neighbor src) w
          (next w).adjList := by
  have hraise := raise_adjList st now newValidity s new.neighbor
  have hlist : (raisedEntry st now newValidity s.adjList new.neighbor).linklist
      = (entryOf st now s.adjList new.neighbor).linklist := NDescr.linklist_updateNodeValidity _ _
  obtain ⟨hsame, hlink⟩ := sameLinks_insert st now s.adjList new.neighbor hlist
  obtain ⟨next, hrun, hweighs⟩ := connect_weighs st.metric (v := new.neighbor)
    ((hlink ⟨src, buf, i⟩).trans h)
  rw [hsame.foundQuality_eq, hsame.findLink_eq, hq] at hrun hweighs
  refine ⟨fun w => { (s.getNodeEntry st now new.neighbor).modifyNode new.neighbor
      (fun nd => nd.updateNodeValidity newValidity) with adjList := next w }, ?_, fun w hw => ?_⟩
  · simp only [RTopology.linkUp, hraise, hsame.findLink_eq]
    rw [← bind_assoc, hrun, bind_assoc]
    rfl
  · have hnext := hweighs w hw
    refine ⟨hsame.trans hnext.same, hnext.own, hnext.reverse, fun p hp hcp => ?_⟩
    rw [hnext.other p hp hcp, weightAt, hlink, weightAt]

/-- A lost link changes no weight. -/
theorem linkDown_weighs (old : LinkQuality) :
    ∃ s', s.linkDown st now src old = .ok s' ∧ SameLinks s.adjList s'.adjList ∧
      ∀ p, weightAt s'.adjList p = weightAt s.adjList p := by
  have hentry := getNodeEntry_adjList st now s old.neighbor
  obtain ⟨hsame, hlink⟩ := sameLinks_insert st now s.adjList old.neighbor rfl
  rw [← hentry] at hsame hlink
  unfold linkDown
  simp only
  cases hf : (s.getNodeEntry st now old.neighbor).adjList.findLink old.neighbor src with
  | none =>
    refine ⟨_, rfl, hsame, fun p => ?_⟩
    rw [weightAt, hlink, weightAt]
  | some q =>
    obtain ⟨-, r, hr, -⟩ := link?_of_findLink hf
    simp only [setCounterpart, except_bind_ok, modifyLink_of_link? hr]
    refine ⟨_, rfl, hsame.trans (sameLinks_write (f := disconnect) (fun _ => rfl) _ _), fun p => ?_⟩
    rw [weightAt, link?_write, hlink, weightAt]
    split
    · rw [Option.map_map]
      rfl
    · rfl

/-- A turn without a new link changes no weight. -/
theorem mergeStep_removed {op : MergeOp} (buf : Nat) (hop : op.new? = none) :
    ∃ s', s.mergeStep st now newValidity src buf op = .ok s' ∧
      SameLinks s.adjList s'.adjList ∧ ∀ p, weightAt s'.adjList p = weightAt s.adjList p := by
  cases op with
  | kept a b => cases hop
  | added a => cases hop
  | removed old =>
    obtain ⟨s', hrun, hsame, hweight⟩ := linkDown_weighs st now src old
    exact ⟨{ s' with dirty := true }, by simp only [mergeStep, hrun, except_bind_ok], hsame,
      hweight⟩

/-- A turn with a new link. -/
theorem mergeStep_new {buf : Nat} {op : MergeOp} {a : LinkQuality × Nat} {l : LinkQuality}
    (hop : op.new? = some a) (h : s.adjList.link? ⟨src, buf, a.2⟩ = some l)
    (hq : l.quality = a.1.quality) :
    ∃ next : UInt32 → RTopology,
      s.mergeStep st now newValidity src buf op = (do
        let w ← foundWeight st.metric s.adjList src a.1
        .ok (next w)) ∧
      ∀ w, foundWeight st.metric s.adjList src a.1 = .ok w →
        PairWeighs s.adjList ⟨src, buf, a.2⟩ (s.adjList.findLink a.1.neighbor src) w
          (next w).adjList := by
  obtain ⟨next, hrun, hweighs⟩ := linkUp_weighs st now newValidity src h hq
  cases op with
  | kept b old =>
    cases hop
    refine ⟨fun w => { next w with
      dirty := (next w).dirty || decide (a.1.quality ≠ old.quality) }, ?_, hweighs⟩
    simp only [mergeStep, hrun, bind_assoc, except_bind_ok]
  | added b =>
    cases hop
    refine ⟨fun w => { next w with dirty := true }, ?_, hweighs⟩
    simp only [mergeStep, hrun, bind_assoc, except_bind_ok]
  | removed old => cases hop

end

/-! ### The whole merge -/

/-- The new links `done` of `src`, each with its index, have got their weights. -/
structure Weighed (m : Metric) (src : NodeId) (buf : Nat) (adj0 : AdjList)
    (done : List (LinkQuality × Nat)) (adj : AdjList) : Prop where
  same : SameLinks adj0 adj
  weight : ∀ a ∈ done, ∃ w, foundWeight m adj0 src a.1 = .ok w ∧
    weightAt adj ⟨src, buf, a.2⟩ = some w ∧
    ∀ q ∈ adj0.findLink a.1.neighbor src, weightAt adj q = some w

section
variable (st : Station) (now newValidity : AbsTime) {src : NodeId} {adj0 : AdjList} {ns : NDescr}
  (hs : adj0[src]? = some ns) (hasc : AscendingLinks ns.links)
include hs hasc

/-- A link of the source to itself is its own reverse link. -/
theorem idx_of_self {a : LinkQuality × Nat} (ha : ns.links[a.2]? = some a.1) {q : LinkPtr}
    (hq : adj0.findLink a.1.neighbor src = some q) (hself : a.1.neighbor = src) :
    q.idx = a.2 := by
  obtain ⟨hown, r, hr, hrsrc⟩ := link?_of_findLink hq
  obtain ⟨nd, hnd, -, hidx⟩ := link?_eq_some_iff.mp hr
  rw [hown, hself, hs] at hnd
  cases hnd
  have h1 := findIdx_of_ascending hasc ha
  have h2 := findIdx_of_ascending hasc hidx
  rw [hrsrc, ← hself] at h2
  exact h2.symm.trans h1

/-- The links that two turns give a weight are different ones. -/
theorem turns_apart {a b : LinkQuality × Nat} (ha : ns.links[a.2]? = some a.1)
    (hb : ns.links[b.2]? = some b.1) (hab : a.2 ≠ b.2) (buf : Nat) {p : LinkPtr}
    (hp : p = ⟨src, buf, a.2⟩ ∨ adj0.findLink a.1.neighbor src = some p) :
    ¬ SamePlace ⟨src, buf, b.2⟩ p ∧
      ∀ q ∈ adj0.findLink b.1.neighbor src, ¬ SamePlace q p := by
  have hne : a.1.neighbor ≠ b.1.neighbor := by
    intro heq
    have h1 := findIdx_of_ascending hasc ha
    have h2 := findIdx_of_ascending hasc hb
    rw [heq] at h1
    exact hab (h1.symm.trans h2)
  rcases hp with rfl | hp
  · refine ⟨fun h => hab h.2.symm, fun q hq h => ?_⟩
    have hself := (link?_of_findLink hq).1.symm.trans h.1
    exact hab (h.2.symm.trans (idx_of_self hs hasc hb hq hself))
  · have hown := (link?_of_findLink hp).1
    refine ⟨fun h => ?_, fun q hq h => ?_⟩
    · have hidx := idx_of_self hs hasc ha hp (hown.symm.trans h.1.symm)
      exact hab (hidx.symm.trans h.2.symm)
    · exact hne (hown.symm.trans (h.1.symm.trans (link?_of_findLink hq).1))

/-- The next turn with a new link. -/
theorem Weighed.snoc {m : Metric} {buf : Nat} {done : List (LinkQuality × Nat)}
    {adj adj' : AdjList} {b : LinkQuality × Nat} {w : UInt32}
    (h : Weighed m src buf adj0 done adj) (hdone : ∀ a ∈ done, ns.links[a.2]? = some a.1)
    (hb : ns.links[b.2]? = some b.1) (hfresh : ∀ a ∈ done, a.2 ≠ b.2)
    (hw : foundWeight m adj0 src b.1 = .ok w)
    (hnext : PairWeighs adj ⟨src, buf, b.2⟩ (adj0.findLink b.1.neighbor src) w adj') :
    Weighed m src buf adj0 (done ++ [b]) adj' where
  same := h.same.trans hnext.same
  weight := by
    intro a ha
    rcases List.mem_append.mp ha with ha | ha
    · obtain ⟨wa, hwa, hown, hreverse⟩ := h.weight a ha
      have hapart := fun (p : LinkPtr) hp =>
        turns_apart hs hasc (hdone a ha) hb (hfresh a ha) buf (p := p) hp
      refine ⟨wa, hwa, ?_, fun q hq => ?_⟩
      · obtain ⟨h1, h2⟩ := hapart _ (.inl rfl)
        rw [hnext.other _ h1 h2, hown]
      · obtain ⟨h1, h2⟩ := hapart q (.inr hq)
        rw [hnext.other _ h1 h2, hreverse q hq]
    · obtain rfl := List.mem_singleton.mp ha
      exact ⟨w, hw, hnext.own, hnext.reverse⟩

/-- The loop of the merge: it comes to its end exactly if the metric has a result for every new
link, and then each of them has its weight. -/
theorem mergeFold_weighs {buf : Nat} (hbuf : ns.linklist.buf = buf) :
    ∀ (ops : List MergeOp) (s : RTopology) (done : List (LinkQuality × Nat)),
      Weighed st.metric src buf adj0 done s.adjList →
      (∀ a ∈ done ++ ops.filterMap Diff.new?, ns.links[a.2]? = some a.1) →
      ((done ++ ops.filterMap Diff.new?).Pairwise fun a b => a.2 ≠ b.2) →
      ((∃ s', ops.foldlM (mergeStep st now newValidity src buf) s = .ok s') ↔
          ∀ a ∈ ops.filterMap Diff.new?, ∃ w, foundWeight st.metric adj0 src a.1 = .ok w) ∧
        ∀ s', ops.foldlM (mergeStep st now newValidity src buf) s = .ok s' →
          Weighed st.metric src buf adj0 (done ++ ops.filterMap Diff.new?) s'.adjList := by
  intro ops
  induction ops with
  | nil =>
    intro s done h _ _
    refine ⟨⟨by simp, fun _ => ⟨s, rfl⟩⟩, fun s' hs' => ?_⟩
    cases hs'
    simpa using h
  | cons op ops ih =>
    intro s done h hnew hdist
    rw [List.foldlM_cons]
    cases hop : Diff.new? op with
    | none =>
      -- a lost link
      obtain ⟨s1, hrun, hsame, hweight⟩ := mergeStep_removed st now newValidity src buf hop
      rw [List.filterMap_cons_none hop] at hnew hdist ⊢
      rw [hrun, except_bind_ok]
      refine ih s1 done ⟨h.same.trans hsame, fun a ha => ?_⟩ hnew hdist
      simp only [hweight]
      exact h.weight a ha
    | some b =>
      rw [List.filterMap_cons_some hop] at hnew hdist ⊢
      have hb := hnew b (by simp)
      have hfresh : ∀ a ∈ done, a.2 ≠ b.2 := fun a ha =>
        (List.pairwise_append.mp hdist).2.2 a ha b List.mem_cons_self
      have hptr : adj0.link? ⟨src, buf, b.2⟩ = some b.1 :=
        link?_eq_some_iff.mpr ⟨ns, hs, hbuf, hb⟩
      obtain ⟨l, hl, hshape⟩ : ∃ l, s.adjList.link? ⟨src, buf, b.2⟩ = some l ∧
          shape l = shape b.1 := by
        have hmap := h.same.link?_shape ⟨src, buf, b.2⟩
        rw [hptr, Option.map_some] at hmap
        exact Option.map_eq_some_iff.mp hmap
      obtain ⟨next, hrun, hweighs⟩ :=
        mergeStep_new st now newValidity src hop hl (congrArg Prod.snd hshape)
      have hfound : foundWeight st.metric s.adjList src b.1
          = foundWeight st.metric adj0 src b.1 := by
        rw [foundWeight, h.same.foundQuality_eq, foundWeight]
      rw [hfound, h.same.findLink_eq] at hweighs
      rw [hrun, hfound]
      cases hw : foundWeight st.metric adj0 src b.1 with
      | error e => simp [hw]
      | ok w =>
        have hstep := h.snoc hs hasc (fun a ha => hnew a (by simp [ha])) hb hfresh hw
          (hweighs w hw)
        have hrest := ih (next w) (done ++ [b]) hstep (by simpa using hnew) (by simpa using hdist)
        rw [List.append_assoc, List.singleton_append] at hrest
        simp only [except_bind_ok, List.forall_mem_cons, hw, Except.ok.injEq, exists_eq', true_and]
        exact hrest

end

/-! ### `mergeLinks` -/

section
variable (st : Station) (now newValidity : AbsTime) {s : RTopology} {p : BasePacket}
  {links : List LinkQuality} {ns : NDescr}

/-- The update of the name leaves the links alone. -/
theorem link?_finishMerge (src : NodeId) (p : BasePacket) (ops : List MergeOp) (s : RTopology) :
    (∀ q, (finishMerge src p ops s).adjList.link? q = s.adjList.link? q) ∧
      ∀ v id, (finishMerge src p ops s).adjList.findLink v id = s.adjList.findLink v id := by
  rw [finishMerge_adjList]
  have hentry := fun v => updateName_lookup s src v p
  refine ⟨fun q => ?_, fun v id => ?_⟩
  · unfold link?
    rw [hentry]
    by_cases howner : q.owner = src
    · rw [if_pos howner]
      cases s.adjList[q.owner]? <;> rfl
    · rw [if_neg howner]
  · unfold findLink
    rw [hentry]
    by_cases hv : v = src
    · rw [if_pos hv]
      cases s.adjList[v]? <;> rfl
    · rw [if_neg hv]

/-- The merge comes to its end exactly if the metric has a result for every link of the packet.
Behind it each of these links has the weight that `calculate` gives it, and so has the reverse
link that is found for it. -/
theorem mergeLinks_weighs (hs : s.adjList[SrcPacket.getSrc p]? = some ns)
    (hnew : AscendingLinks links) :
    ((∃ s', s.mergeLinks st now newValidity p links = .ok s') ↔ ∀ l ∈ links, ∃ w,
        foundWeight st.metric (s.swapLinks (SrcPacket.getSrc p) newValidity links).adjList
          (SrcPacket.getSrc p) l = .ok w) ∧
      ∀ s', s.mergeLinks st now newValidity p links = .ok s' →
        ∀ i l, links[i]? = some l → ∃ w,
          foundWeight st.metric (s.swapLinks (SrcPacket.getSrc p) newValidity links).adjList
            (SrcPacket.getSrc p) l = .ok w ∧
          weightAt s'.adjList ⟨SrcPacket.getSrc p, s.nextBuf, i⟩ = some w ∧
          ∀ q ∈ s'.adjList.findLink l.neighbor (SrcPacket.getSrc p),
            weightAt s'.adjList q = some w := by
  set src := SrcPacket.getSrc p
  set s0 := s.swapLinks src newValidity links with hs0
  have hentry : s0.adjList[src]? = some (swappedEntry s newValidity links ns) := by
    rw [hs0]
    simp [swapLinks, modifyNode, hs, swappedEntry]
  -- The turns with a new link are the links of the packet with their indices.
  have hops : (mergeOps links ns.links).filterMap Diff.new? = links.zipIdx := by
    rw [mergeOps, filterMap_new_threeWay]
  have hidx : links.zipIdx.Pairwise fun a b => a.2 ≠ b.2 := by
    have hnodup : (links.zipIdx.map Prod.snd).Nodup := by
      rw [List.zipIdx_map_snd]
      exact List.nodup_range'
    exact List.pairwise_map.mp hnodup
  obtain ⟨hiff, hbehind⟩ := mergeFold_weighs st now newValidity hentry
    (show AscendingLinks links from hnew) (show _ = s.nextBuf from rfl) (mergeOps links ns.links)
    s0 [] ⟨.refl _, by simp⟩
    (fun a ha => by
      rw [List.nil_append, hops] at ha
      exact List.mem_zipIdx_iff_getElem?.mp ha)
    (by rw [List.nil_append, hops]; exact hidx)
  rw [mergeLinks_eq hs]
  rw [hops] at hiff
  simp only [List.nil_append, hops] at hbehind
  -- The merge returns if the loop does, and the loop needs each weight once.
  constructor
  · have hfold : (∃ s', (do
          let s' ← (mergeOps links ns.links).foldlM
            (mergeStep st now newValidity src s.nextBuf) s0
          Except.ok (finishMerge src p (mergeOps links ns.links) s')) = .ok s') ↔
        ∃ s', (mergeOps links ns.links).foldlM
          (mergeStep st now newValidity src s.nextBuf) s0 = .ok s' :=
      ⟨fun h => (bind_eq_ok.mp h.choose_spec).imp fun _ h => h.1,
        fun h => ⟨_, by rw [h.choose_spec, except_bind_ok]⟩⟩
    rw [hfold, hiff]
    constructor
    · intro h l hl
      obtain ⟨i, hi⟩ := List.mem_iff_getElem?.mp hl
      exact h (l, i) (List.mem_zipIdx_iff_getElem?.mpr hi)
    · exact fun h a ha => h a.1 (List.fst_mem_of_mem_zipIdx ha)
  · -- The last step writes no weight, so those of the loop are read.
    intro s' hrun i l hi
    obtain ⟨t, ht, hfinish⟩ := bind_eq_ok.mp hrun
    cases hfinish
    obtain ⟨hlink, hfind⟩ := link?_finishMerge src p (mergeOps links ns.links) t
    have hweighed := hbehind t ht
    obtain ⟨w, hw, hown, hreverse⟩ := hweighed.weight (l, i) (List.mem_zipIdx_iff_getElem?.mpr hi)
    have hweight : ∀ q, weightAt (finishMerge src p (mergeOps links ns.links) t).adjList q
        = weightAt t.adjList q := fun q => by rw [weightAt, hlink, weightAt]
    refine ⟨w, hw, (hweight _).trans hown, fun q hq => (hweight q).trans (hreverse q ?_)⟩
    exact (hweighed.same.findLink_eq _ _).symm.trans ((hfind _ _).symm.trans hq)

end

end Awds.Proofs
