import Awds.Proofs.Topology.Acceptance

/-!
# `Awds.Proofs.Topology.OwnNode`: how long a node lives

Only the cleanup removes a node, and only a node that has expired. No other part of an event
makes the validity of a node smaller: `Outlives adj adj'` says that each node of `adj` is in
`adj'` and lives at least as long. The functions that write through pointers, the merge and the
computation of the routes are of this kind. This holds for every run that ends, also behind a
packet that is too short for its links.

`LivesUntil.exec` says which events keep a node, and `LivesUntil.feed_source` and
`LivesUntil.feed_listed` which packets renew it.
-/

set_option autoImplicit false

namespace Awds.Proofs

open Std (ExtTreeMap)
open Awds.Lib Awds.RTopology Awds.AdjList

/-- The node `u` is in the map and expires at `v` or later. -/
def LivesUntil (adj : AdjList) (u : NodeId) (v : AbsTime) : Prop :=
  ∃ nd, adj[u]? = some nd ∧ v ≤ nd.nodeValidity

/-- Every node of the first map is in the second one and lives at least as long there. -/
def Outlives (adj adj' : AdjList) : Prop :=
  ∀ u v, LivesUntil adj u v → LivesUntil adj' u v

section
variable {adj adj' adj'' : AdjList} {u : NodeId} {v : AbsTime}

/-- A node that lives for some time is in the map. -/
theorem LivesUntil.mem (h : LivesUntil adj u v) : u ∈ adj := by
  obtain ⟨nd, hnd, -⟩ := h
  exact (mem_iff_getElem? _ _).mpr ⟨nd, hnd⟩

/-- It lives for any shorter time too. -/
theorem LivesUntil.mono {w : AbsTime} (h : LivesUntil adj u v) (hw : w ≤ v) :
    LivesUntil adj u w := by
  obtain ⟨nd, hnd, hle⟩ := h
  exact ⟨nd, hnd, hw.trans hle⟩

/-- Every node of the map lives until its own validity. -/
theorem LivesUntil.of_mem (h : u ∈ adj) : ∃ v, LivesUntil adj u v := by
  obtain ⟨nd, hnd⟩ := (mem_iff_getElem? _ _).mp h
  exact ⟨nd.nodeValidity, nd, hnd, Int.le_refl _⟩

/-- A node that is alive at `t` expires later than `t`. -/
theorem Alive.livesUntil {t : AbsTime} (h : Alive t adj u) : LivesUntil adj u (t + 1) := by
  obtain ⟨nd, hnd, hlt⟩ := h
  exact ⟨nd, hnd, hlt⟩

/-- Nodes live as long as before where nothing happens. -/
theorem Outlives.refl (adj : AdjList) : Outlives adj adj := fun _ _ h => h

/-- The relation goes through a sequence of steps. -/
theorem Outlives.trans (h : Outlives adj adj') (h' : Outlives adj' adj'') : Outlives adj adj'' :=
  fun u v hu => h' u v (h u v hu)

/-- A change of one entry that sets no validity back. -/
theorem Outlives.modify (adj : AdjList) (id : NodeId) {f : NDescr → NDescr}
    (hf : ∀ nd, nd.nodeValidity ≤ (f nd).nodeValidity) : Outlives adj (adj.modify id f) := by
  rintro u v ⟨nd, hnd, hle⟩
  by_cases hid : id = u
  · exact ⟨f nd, by rw [getElem?_modifyAt, if_pos hid, hnd]; rfl, hle.trans (hf nd)⟩
  · exact ⟨nd, by rw [getElem?_modifyAt, if_neg hid, hnd], hle⟩

/-- Validities are part of the graph, so the routes do not matter. -/
theorem Outlives.of_sameGraph (h : SameGraph adj adj') : Outlives adj adj' := by
  rintro u v ⟨nd, hnd, hle⟩
  obtain ⟨nd', hnd', -, -, hnode⟩ := h.symm.entry hnd
  exact ⟨nd', hnd', by rw [hnode]; exact hle⟩

/-! ### Pointers -/

/-- A write to a link changes no validity. -/
theorem Outlives.modifyLink {p : LinkPtr} {f : LinkQuality → LinkQuality}
    (h : adj.modifyLink p f = .ok adj') : Outlives adj adj' := by
  unfold AdjList.modifyLink at h
  split at h
  · cases h
  · cases h
    exact .modify adj p.owner fun _ => Int.le_refl _

/-- Nor does the connection of two links. -/
theorem Outlives.setCounterpart {this : LinkPtr} {lq : Option LinkPtr}
    (h : adj.setCounterpart this lq = .ok adj') : Outlives adj adj' := by
  cases lq with
  | none => exact .modifyLink h
  | some q =>
    obtain ⟨a, hfirst, h⟩ := bind_eq_ok.mp h
    exact (Outlives.modifyLink hfirst).trans (.modifyLink h)

/-- Nor does the removal of a reference. -/
theorem Outlives.removeReference {this : LinkPtr} (h : adj.removeReference this = .ok adj') :
    Outlives adj adj' := by
  obtain ⟨l, -, h⟩ := bind_eq_ok.mp h
  split at h
  · cases h
    exact .refl adj
  · obtain ⟨a, hfirst, h⟩ := bind_eq_ok.mp h
    exact (Outlives.modifyLink hfirst).trans (.modifyLink h)

/-- Nor does a new weight. -/
theorem Outlives.setMetricWeight {this : LinkPtr} {mw : UInt32}
    (h : adj.setMetricWeight this mw = .ok adj') : Outlives adj adj' := by
  obtain ⟨a, hfirst, h⟩ := bind_eq_ok.mp h
  obtain ⟨l, -, h⟩ := bind_eq_ok.mp h
  split at h
  · cases h
    exact .modifyLink hfirst
  · exact (Outlives.modifyLink hfirst).trans (.modifyLink h)

/-- Nor does the calculation of a weight. -/
theorem Outlives.calculate {m : Metric} {it : LinkPtr} (h : m.calculate adj it = .ok adj') :
    Outlives adj adj' := by
  obtain ⟨qualities, -, h⟩ := bind_eq_ok.mp h
  cases qualities with
  | none => exact .setMetricWeight h
  | some fb =>
    obtain ⟨mw, -, h⟩ := bind_eq_ok.mp h
    exact .setMetricWeight h

end

/-! ### The merge -/

section
variable {st : Station} {now newValidity : AbsTime} {src : NodeId} {buf : Nat}
  {s s' : RTopology} {p : BasePacket} {links : List LinkQuality}

/-- A node that is created is new, so no other validity is touched. -/
theorem Outlives.getNodeEntry (st : Station) (now : AbsTime) (s : RTopology) (id : NodeId) :
    Outlives s.adjList (s.getNodeEntry st now id).adjList := by
  rintro u v ⟨nd, hnd, hle⟩
  refine ⟨nd, ?_, hle⟩
  rw [getNodeEntry_adjList, getElem?_insertAt]
  by_cases hid : id = u
  · rw [if_pos hid, hid, entryOf_of_some hnd]
  · rw [if_neg hid, hnd]

/-- A raised validity keeps its node alive until then. -/
theorem LivesUntil.updateNodeValidity {adj : AdjList} {id : NodeId} {f : NDescr → NDescr}
    (h : id ∈ adj) (hf : ∀ nd, newValidity ≤ (f nd).nodeValidity) :
    LivesUntil (adj.modify id f) id newValidity := by
  obtain ⟨nd, hnd⟩ := (mem_iff_getElem? _ _).mp h
  exact ⟨f nd, by rw [getElem?_modifyAt, if_pos rfl, hnd]; rfl, hf nd⟩

/-- `getNodeEntry` puts the node into the map. -/
theorem getNodeEntry_mem (st : Station) (now : AbsTime) (s : RTopology) (id : NodeId) :
    id ∈ (s.getNodeEntry st now id).adjList :=
  (mem_iff_getElem? _ _).mpr ⟨_, getNodeEntry_lookup st now s id⟩

/-- A link that is connected renews its target. -/
theorem linkUp_lives {new : LinkQuality} {i : Nat}
    (h : s.linkUp st now newValidity src buf new i = .ok s') :
    Outlives s.adjList s'.adjList ∧ LivesUntil s'.adjList new.neighbor newValidity ∧
      Frame s s' false := by
  obtain ⟨a1, hcounterpart, h⟩ := bind_eq_ok.mp h
  obtain ⟨a2, hcalculate, h⟩ := bind_eq_ok.mp h
  cases h
  have hraise : ∀ nd : NDescr, nd.nodeValidity ≤ (nd.updateNodeValidity newValidity).nodeValidity ∧
      newValidity ≤ (nd.updateNodeValidity newValidity).nodeValidity := by
    intro nd
    rw [NDescr.nodeValidity_updateNodeValidity]
    exact ⟨le_max_left _ _, le_max_right _ _⟩
  have hwrites := (Outlives.setCounterpart hcounterpart).trans (.calculate hcalculate)
  refine ⟨?_, ?_, ?_⟩
  · refine (Outlives.getNodeEntry st now s new.neighbor).trans (.trans ?_ hwrites)
    exact .modify _ new.neighbor fun nd => (hraise nd).1
  · exact hwrites _ _ (.updateNodeValidity (getNodeEntry_mem st now s new.neighbor)
      fun nd => (hraise nd).2)
  · obtain ⟨hdirty, hlocked, hwatched, hbuf⟩ := getNodeEntry_frame st now s new.neighbor
    exact ⟨hdirty.trans (Bool.or_false _).symm, hlocked, hwatched, hbuf⟩

/-- A link that goes down sets no validity back and raises no flag. -/
theorem linkDown_lives {old : LinkQuality} (h : s.linkDown st now src old = .ok s') :
    Outlives s.adjList s'.adjList ∧ Frame s s' false := by
  have hentry := Outlives.getNodeEntry st now s old.neighbor
  obtain ⟨hdirty, hlocked, hwatched, hbuf⟩ := getNodeEntry_frame st now s old.neighbor
  have hframe : ∀ adj, Frame s { s.getNodeEntry st now old.neighbor with adjList := adj } false :=
    fun _ => ⟨hdirty.trans (Bool.or_false _).symm, hlocked, hwatched, hbuf⟩
  unfold linkDown at h
  dsimp only at h
  split at h
  · cases h
    exact ⟨hentry, hframe _⟩
  · obtain ⟨a, hcounterpart, h⟩ := bind_eq_ok.mp h
    cases h
    exact ⟨hentry.trans (.setCounterpart hcounterpart), hframe _⟩

/-- One turn of the merge. -/
theorem mergeStep_lives {op : MergeOp} (h : s.mergeStep st now newValidity src buf op = .ok s') :
    Outlives s.adjList s'.adjList ∧
      (∀ a, op.new? = some a → LivesUntil s'.adjList a.1.neighbor newValidity) ∧
      Frame s s' (changes op) := by
  cases op with
  | kept new old =>
    obtain ⟨s1, hup, h⟩ := bind_eq_ok.mp h
    cases h
    obtain ⟨hlives, htarget, hframe⟩ := linkUp_lives hup
    refine ⟨hlives, fun a ha => by cases ha; exact htarget, ?_⟩
    exact ⟨by rw [hframe.dirty, Bool.or_false]; rfl, hframe.locked, hframe.watched, hframe.nextBuf⟩
  | added new =>
    obtain ⟨s1, hup, h⟩ := bind_eq_ok.mp h
    cases h
    obtain ⟨hlives, htarget, hframe⟩ := linkUp_lives hup
    refine ⟨hlives, fun a ha => by cases ha; exact htarget, ?_⟩
    exact ⟨(Bool.or_true _).symm, hframe.locked, hframe.watched, hframe.nextBuf⟩
  | removed old =>
    obtain ⟨s1, hdown, h⟩ := bind_eq_ok.mp h
    cases h
    obtain ⟨hlives, hframe⟩ := linkDown_lives hdown
    refine ⟨hlives, fun a ha => (by cases ha), ?_⟩
    exact ⟨(Bool.or_true _).symm, hframe.locked, hframe.watched, hframe.nextBuf⟩

/-- The loop of the merge: every neighbour that is listed is renewed. -/
theorem mergeFold_lives (ops : List MergeOp) :
    ∀ s, ops.foldlM (mergeStep st now newValidity src buf) s = .ok s' →
      Outlives s.adjList s'.adjList ∧
      (∀ op ∈ ops, ∀ a, op.new? = some a → LivesUntil s'.adjList a.1.neighbor newValidity) ∧
      Frame s s' (ops.any changes) := by
  induction ops with
  | nil =>
    intro s h
    cases h
    exact ⟨.refl _, fun op hop => (by cases hop), (Bool.or_false _).symm, rfl, rfl, rfl⟩
  | cons op ops ih =>
    intro s h
    rw [List.foldlM_cons, bind_eq_ok] at h
    obtain ⟨s1, hstep, h⟩ := h
    obtain ⟨hlives, htarget, hframe⟩ := mergeStep_lives hstep
    obtain ⟨hlives', htargets, hframe'⟩ := ih s1 h
    refine ⟨hlives.trans hlives', fun o ho a ha => ?_, hframe.trans hframe'⟩
    rcases List.mem_cons.mp ho with rfl | ho
    · exact hlives' _ _ (htarget a ha)
    · exact htargets o ho a ha

/-- The new vector renews its source. -/
theorem swapLinks_lives (newValidity : AbsTime) (links : List LinkQuality)
    (h : src ∈ s.adjList) :
    Outlives s.adjList (s.swapLinks src newValidity links).adjList ∧
      LivesUntil (s.swapLinks src newValidity links).adjList src newValidity := by
  constructor
  · refine .modify s.adjList src fun nd => ?_
    show nd.nodeValidity ≤ (nd.updateNodeValidity newValidity).nodeValidity
    rw [NDescr.nodeValidity_updateNodeValidity]
    exact le_max_left _ _
  · refine .updateNodeValidity h fun nd => ?_
    show newValidity ≤ (nd.updateNodeValidity newValidity).nodeValidity
    rw [NDescr.nodeValidity_updateNodeValidity]
    exact le_max_right _ _

/-- A new name is no new validity. -/
theorem updateName_lives (s : RTopology) (src : NodeId) (p : BasePacket) :
    Outlives s.adjList (s.updateName src p).1.adjList := by
  unfold updateName
  split
  · exact .modify s.adjList src fun _ => Int.le_refl _
  · exact .refl _

/-- The merge renews the source of the packet and the neighbours it lists. -/
theorem mergeLinks_lives (hsrc : SrcPacket.getSrc p ∈ s.adjList)
    (h : s.mergeLinks st now newValidity p links = .ok s') :
    Outlives s.adjList s'.adjList ∧ LivesUntil s'.adjList (SrcPacket.getSrc p) newValidity ∧
      (∀ l ∈ links, LivesUntil s'.adjList l.neighbor newValidity) ∧
      s'.dirty =
        (s.dirty || (mergeOps links (s.adjList.linksOf (SrcPacket.getSrc p))).any changes) := by
  obtain ⟨ns, hns⟩ := (mem_iff_getElem? _ _).mp hsrc
  rw [mergeLinks_eq hns] at h
  obtain ⟨s1, hfold, h⟩ := bind_eq_ok.mp h
  cases h
  obtain ⟨hlives, htargets, hframe⟩ := mergeFold_lives _ _ hfold
  obtain ⟨hswap, hsource⟩ := swapLinks_lives newValidity links hsrc
  have hfinish : Outlives s1.adjList (finishMerge (SrcPacket.getSrc p) p
      (mergeOps links ns.links) s1).adjList := by
    rw [finishMerge_adjList]
    exact updateName_lives s1 _ p
  refine ⟨hswap.trans (hlives.trans hfinish), hfinish _ _ (hlives _ _ hsource), ?_, ?_⟩
  · intro l hl
    -- a link that is listed has a turn of the loop
    obtain ⟨i, hi⟩ := List.mem_iff_getElem?.mp hl
    have hnew : (l, i) ∈ (mergeOps links ns.links).filterMap Diff.new? := by
      rw [mergeOps, filterMap_new_threeWay]
      exact List.mem_zipIdx_iff_getElem?.mpr hi
    obtain ⟨op, hop, hopnew⟩ := List.mem_filterMap.mp hnew
    exact hfinish _ _ (htargets op hop (l, i) hopnew)
  · rw [linksOf_of_some hns]
    exact (hframe.trans (finishMerge_frame _ _ _ _)).dirty.trans (by rw [Bool.or_false]; rfl)

end

/-! ### The cleanup -/

section
variable {st : Station} {now : AbsTime} {u : NodeId} {v t : AbsTime} {s s' : RTopology}

/-- The removal of the expired links of a node touches links only. -/
theorem dropEdges_lives {w w' : Sweep} {id : NodeId} {nd : NDescr}
    (h : w.dropEdges t id nd = .ok w') : Outlives w.adj w'.adj := by
  unfold Sweep.dropEdges at h
  split at h
  · obtain ⟨adj, hfold, h⟩ := bind_eq_ok.mp h
    cases h
    have hrefs : Outlives w.adj adj :=
      foldlM_invariant (P := fun a => Outlives w.adj a) _ _ _
        (fun a i a' _ ha hstep => ha.trans (.removeReference hstep)) (.refl _) hfold
    exact hrefs.trans (.modify adj id fun _ => Int.le_refl _)
  · cases h
    exact .refl _

/-- The pass only drops the node it stands on, and only if this has expired. -/
theorem visit_lives {w w' : Sweep} {id : NodeId} (h : w.visit t id = .ok w') (ht : t < v)
    (hl : LivesUntil w.adj u v) : LivesUntil w'.adj u v := by
  unfold Sweep.visit at h
  split at h
  · cases h
    exact hl
  rename_i nd hnd
  obtain ⟨w1, hedges, h⟩ := bind_eq_ok.mp h
  cases h
  have hl1 := dropEdges_lives hedges u v hl
  unfold Sweep.dropNode
  split
  · rename_i hexpired
    have hne : id ≠ u := by
      rintro rfl
      obtain ⟨nd', hnd', hle⟩ := hl
      rw [hnd] at hnd'
      cases hnd'
      exact absurd (ht.trans_le hle) (not_lt.mpr hexpired)
    obtain ⟨nd', hnd', hle⟩ := hl1
    exact ⟨nd', by rw [getElem?_eraseAt, if_neg hne, hnd'], hle⟩
  · exact hl1

/-- A cleanup keeps the nodes that have not expired. On a locked topology it keeps all of them. -/
theorem removeOldNodes_lives {next : AbsTime} (h : s.removeOldNodes now = .ok (s', next))
    (ht : s.locked = false → now < v) (hl : LivesUntil s.adjList u v) :
    LivesUntil s'.adjList u v := by
  unfold removeOldNodes at h
  split at h
  · cases h
  split at h
  · cases h
    exact hl
  rename_i hunlocked
  have hnow : now < v := ht (by simpa using hunlocked)
  obtain ⟨w, hfold, h⟩ := bind_eq_ok.mp h
  cases h
  have hw : LivesUntil w.adj u v :=
    foldlM_invariant (P := fun w : Sweep => LivesUntil w.adj u v) _ _ _
      (fun w id w' _ hw hstep => visit_lives hstep hnow hw) hl hfold
  split
  · rw [emit_adjList]
    exact hw
  · exact hw

/-- `updateTopology` keeps them too, since computing routes leaves the graph as it is. -/
theorem updateTopology_lives (h : s.updateTopology st now = .ok s')
    (ht : s.locked = false → now < v) (hl : LivesUntil s.adjList u v) :
    LivesUntil s'.adjList u v := by
  obtain ⟨⟨s1, next⟩, hsweep, h⟩ := bind_eq_ok.mp h
  obtain ⟨adj, hroutes, h⟩ := bind_eq_ok.mp h
  cases h
  exact Outlives.of_sameGraph (calcRoutes_sameGraph hroutes) u v (removeOldNodes_lives hsweep ht hl)

end

/-! ### Events -/

section
variable {st : Station} {now : AbsTime} {u : NodeId} {v : AbsTime} {s s' : RTopology}
  {p : BasePacket}

/-- `feed` of a packet that is too short for its links: nothing happens, or the source gets a
vector of default links. -/
theorem feed_short (hp : ¬ SizeOk p) (h : s.feed st now p = .ok s') :
    (s' = s ∧ (s.locked = true ∨ p.size < TopoPacket.offsetLinks + 1)) ∨
      (0 < TopoPacket.getValidity p ∧
        s' = (s.getNodeEntry st now (SrcPacket.getSrc p)).swapLinks (SrcPacket.getSrc p)
          (now + TopoPacket.getValidity p) (List.replicate (TopoPacket.getNumLinks p) {})) := by
  unfold feed at h
  split at h
  · rename_i hlocked
    cases h
    exact .inl ⟨rfl, .inl hlocked⟩
  split at h
  · rename_i hsize
    cases h
    exact .inl ⟨rfl, .inr hsize⟩
  rename_i hsize
  dsimp only at h
  split at h
  · cases h
  rename_i hval
  split at h
  · cases h
    exact .inr ⟨not_le.mp hval, rfl⟩
  · rename_i hlinks
    exact absurd ⟨not_lt.mp hsize, not_lt.mp hlinks⟩ hp

/-- A packet that says nothing new raises no flag. -/
theorem changes_of_news (hasc : AscendingLinks (packetLinks p)) (h : hasNews s p = false) :
    (mergeOps (packetLinks p) (s.adjList.linksOf (SrcPacket.getSrc p))).any changes = false := by
  have hshape : (packetLinks p).map shape = (s.adjList.linksOf (SrcPacket.getSrc p)).map shape := by
    simpa [hasNews] using h
  -- the stored vector has the neighbours of the packet, so it is in order, too
  have hold : AscendingLinks (s.adjList.linksOf (SrcPacket.getSrc p)) := by
    have hids := congrArg (List.map Prod.fst) hshape
    rw [List.map_map, List.map_map] at hids
    have hpair : ((packetLinks p).map (Prod.fst ∘ shape)).Pairwise (· < ·) :=
      List.pairwise_map.mpr hasc
    rw [hids] at hpair
    exact List.pairwise_map.mp hpair
  exact (any_changes_eq_false_iff hasc hold).mpr hshape

/-- The nodes behind the merge: every node lives on, and the packet renews its source and the
neighbours it lists. The routes are computed only if there is something new. -/
theorem merged_lives {links : List LinkQuality} {s1 : RTopology}
    (hparse : parseLinks p.buffer (TopoPacket.getNumLinks p) TopoPacket.offsetLinks none =
      .ok links)
    (hmerge : (s.getNodeEntry st now (SrcPacket.getSrc p)).mergeLinks st now
      (now + TopoPacket.getValidity p) p links = .ok s1) :
    Outlives s.adjList s1.adjList ∧
      (∀ u, u = SrcPacket.getSrc p ∨ Lists p u →
        LivesUntil s1.adjList u (now + TopoPacket.getValidity p)) ∧
      (s1.dirty = true → (s.dirty || hasNews s p) = true) := by
  have hlinks := packetLinks_of_ok hparse
  have hasc := (parseLinks_ascending _ _ _ _ _ hparse).1
  obtain ⟨hlives, hsource, htargets, hdirty⟩ :=
    mergeLinks_lives (getNodeEntry_mem st now s (SrcPacket.getSrc p)) hmerge
  rw [linksOf_getNodeEntry, (getNodeEntry_frame st now s (SrcPacket.getSrc p)).1] at hdirty
  subst hlinks
  -- What lived before lives on, and what the packet names lives for its validity.
  refine ⟨(Outlives.getNodeEntry st now s _).trans hlives, fun u hu => ?_, fun hraised => ?_⟩
  · rcases hu with rfl | ⟨l, hl, rfl⟩
    · exact hsource
    · exact htargets l hl
  · -- Only news of the source make the topology dirty.
    rw [hdirty] at hraised
    cases hnews : hasNews s p with
    | true => exact Bool.or_true _
    | false =>
      rw [changes_of_news hasc hnews] at hraised
      exact hraised

/-- The event runs the cleanup on an unlocked topology. A packet that is too short does not. -/
def cleans (s : RTopology) (e : Event) : Bool :=
  sweeps s e && match e.op with
    | .feed p => decide (SizeOk p)
    | _ => true

/-- An event keeps the own node until `v` if its cleanup comes before. -/
theorem LivesUntil.exec {e : Event} (hl : LivesUntil s.adjList st.myNodeId v)
    (ht : cleans s e = true → e.now < v) (h : s.exec st e = .ok s') :
    LivesUntil s'.adjList st.myNodeId v := by
  obtain ⟨now, op⟩ := e
  -- One case for each event; only a cleanup can remove the own node.
  cases op with
  | feed p =>
    by_cases hp : SizeOk p
    · rcases feed_cases hp h with ⟨-, rfl⟩ | ⟨hlocked, -, links, s1, hparse, hmerge, h⟩
      · exact hl
      obtain ⟨hlives, -, hraised⟩ := merged_lives hparse hmerge
      split at h
      · rename_i hdirty
        refine updateTopology_lives h (fun _ => ht ?_) (hlives _ _ hl)
        simp [cleans, sweeps, hlocked, hraised hdirty, hp]
      · cases h
        exact hlives _ _ hl
    · rcases feed_short hp h with ⟨rfl, -⟩ | ⟨-, rfl⟩
      · exact hl
      · have hentry := getNodeEntry_mem st now s (SrcPacket.getSrc p)
        exact (swapLinks_lives _ _ hentry).1 _ _ (Outlives.getNodeEntry st now s _ _ _ hl)
  -- The periodic cleanup.
  | cleanup =>
    obtain ⟨⟨s1, next⟩, hsweep, h⟩ := bind_eq_ok.mp h
    cases h
    refine removeOldNodes_lives hsweep (fun hlocked => ht ?_) hl
    simp [cleans, sweeps, hlocked]
  | reset wallClock =>
    obtain ⟨⟨s1, next⟩, hsweep, h⟩ := bind_eq_ok.mp h
    cases h
    refine removeOldNodes_lives hsweep (fun hlocked => ht ?_) ?_
    · have hlocked : s.locked = false := hlocked
      simp [cleans, sweeps, hlocked]
    · -- the own node is not invalidated
      obtain ⟨nd, hnd, hle⟩ := hl
      refine ⟨nd, ?_, hle⟩
      show (ExtTreeMap.map _ s.adjList)[st.myNodeId]? = some nd
      rw [ExtTreeMap.getElem?_map, hnd]
      simp
  -- The lock changes no entry.
  | setLocked b =>
    cases h
    exact hl
  -- A question for a route cleans up if the topology is dirty.
  | getNextHop dest =>
    obtain ⟨⟨s1, hop, found⟩, hnext, h⟩ := bind_eq_ok.mp h
    cases h
    unfold RTopology.getNextHop at hnext
    dsimp only at hnext
    split at hnext
    · rename_i hdirty
      obtain ⟨s2, hupdate, hnext⟩ := bind_eq_ok.mp hnext
      have hsame : s' = s2 := by
        split at hnext
        · cases hnext
          rfl
        · cases hnext
          rfl
      rw [hsame]
      refine updateTopology_lives hupdate (fun hlocked => ht ?_) hl
      simp [cleans, sweeps, hlocked, hdirty]
    · have hsame : s' = s := by
        rw [except_bind_ok] at hnext
        split at hnext
        · cases hnext
          rfl
        · cases hnext
          rfl
      rw [hsame]
      exact hl
  | watch =>
    cases h
    exact hl

/-- A packet renews its source, and if it is long enough also the neighbours it lists. -/
theorem feed_renews (hlocked : s.locked = false) (hsize : TopoPacket.offsetLinks + 1 ≤ p.size)
    (hu : u = SrcPacket.getSrc p ∨ SizeOk p ∧ Lists p u) (h : s.feed st now p = .ok s') :
    0 < TopoPacket.getValidity p ∧
      LivesUntil s'.adjList u (now + TopoPacket.getValidity p) := by
  by_cases hp : SizeOk p
  · rcases feed_cases hp h with ⟨hl, -⟩ | ⟨-, hval, links, s1, hparse, hmerge, h⟩
    · rw [hlocked] at hl
      cases hl
    obtain ⟨-, hrenews, -⟩ := merged_lives hparse hmerge
    have hs1 := hrenews u (hu.imp_right And.right)
    refine ⟨hval, ?_⟩
    split at h
    · exact updateTopology_lives h (fun _ => lt_add_of_pos_right now hval) hs1
    · cases h
      exact hs1
  · rcases feed_short hp h with ⟨-, hl | hshort⟩ | ⟨hval, rfl⟩
    · rw [hlocked] at hl
      cases hl
    · exact absurd hsize (not_le.mpr hshort)
    · have hsrc : u = SrcPacket.getSrc p := hu.resolve_right fun hc => hp hc.1
      rw [hsrc]
      exact ⟨hval, (swapLinks_lives _ _ (getNodeEntry_mem st now s _)).2⟩

/-- The own node is alive when the event runs the cleanup: it has not expired, or the packet comes
from it or lists it. -/
def OwnSurvives (st : Station) (s : RTopology) (e : Event) : Prop :=
  Alive e.now s.adjList st.myNodeId ∨
    ∃ p, e.op = .feed p ∧ (st.myNodeId = SrcPacket.getSrc p ∨ Lists p st.myNodeId)

/-- The own node stays if it survives the cleanup. -/
theorem own_mem_exec {e : Event} (hmem : st.myNodeId ∈ s.adjList)
    (hok : cleans s e = true → OwnSurvives st s e) (h : s.exec st e = .ok s') :
    st.myNodeId ∈ s'.adjList := by
  by_cases hcleans : cleans s e = true
  · rcases hok hcleans with halive | ⟨p, hop, hrenewed⟩
    · exact (halive.livesUntil.exec (fun _ => Int.lt_succ e.now) h).mem
    · obtain ⟨now, op⟩ := e
      have hop : op = .feed p := hop
      subst hop
      have hall : s.locked = false ∧ SizeOk p := by
        simp only [cleans, sweeps, Bool.and_eq_true, decide_eq_true_eq, Bool.not_eq_true']
          at hcleans
        exact ⟨hcleans.1.1, hcleans.2⟩
      exact (feed_renews hall.1 hall.2.1 (hrenewed.imp_right fun hc => ⟨hall.2, hc⟩) h).2.mem
  · obtain ⟨v, hl⟩ := LivesUntil.of_mem hmem
    exact (hl.exec (fun hc => absurd hc hcleans) h).mem

/-- The event calls `updateTopology` on the topology `x`. -/
def CallsUpdate (st : Station) (s : RTopology) (e : Event) (x : RTopology) : Prop :=
  match e.op with
  | .feed p => s.locked = false ∧ SizeOk p ∧ 0 < TopoPacket.getValidity p ∧ x.dirty = true ∧
      ∃ links,
      parseLinks p.buffer (TopoPacket.getNumLinks p) TopoPacket.offsetLinks none = .ok links ∧
      (s.getNodeEntry st e.now (SrcPacket.getSrc p)).mergeLinks st e.now
        (e.now + TopoPacket.getValidity p) p links = .ok x
  | .getNextHop _ => s.dirty = true ∧ x = s
  | _ => False

/-- The assertion of `calcRoutes` holds wherever the event computes the routes. -/
def RoutesAssert (st : Station) (s : RTopology) (e : Event) : Prop :=
  ∀ x s1 next, CallsUpdate st s e x → x.removeOldNodes e.now = .ok (s1, next) →
    st.myNodeId ∈ s1.adjList

/-- The own node is in the map when the routes are computed: it was there and survives the cleanup
in front of it. -/
theorem routes_assert {e : Event} (hmem : st.myNodeId ∈ s.adjList)
    (hok : cleans s e = true → OwnSurvives st s e) : RoutesAssert st s e := by
  obtain ⟨now, op⟩ := e
  intro x s1 next hupdates hsweep
  -- Only a feed and a question for a route compute routes.
  cases op with
  | feed p =>
    obtain ⟨hlocked, hp, hval, hdirty, links, hparse, hmerge⟩ := hupdates
    obtain ⟨hlives, hrenews, hraised⟩ := merged_lives hparse hmerge
    have hcleans : cleans s ⟨now, .feed p⟩ = true := by
      simp [cleans, sweeps, hlocked, hraised hdirty, hp]
    -- The own node is alive before the cleanup, or the packet has made it so.
    have hx : LivesUntil x.adjList st.myNodeId (now + 1) := by
      rcases hok hcleans with halive | ⟨q, hop, hrenewed⟩
      · exact hlives _ _ halive.livesUntil
      · cases hop
        exact (hrenews _ hrenewed).mono (Int.add_le_add_left hval now)
    exact (removeOldNodes_lives hsweep (fun _ => Int.lt_succ now) hx).mem
  | getNextHop dest =>
    obtain ⟨hdirty, rfl⟩ := hupdates
    -- A locked topology is not cleaned up.
    cases hlocked : x.locked with
    | true =>
      obtain ⟨v, hl⟩ := LivesUntil.of_mem hmem
      exact (removeOldNodes_lives hsweep (fun hc => by rw [hlocked] at hc; cases hc) hl).mem
    -- Otherwise the own node is alive, so it is still there behind the cleanup.
    | false =>
      have hcleans : cleans x ⟨now, .getNextHop dest⟩ = true := by
        simp [cleans, sweeps, hlocked, hdirty]
      rcases hok hcleans with halive | ⟨q, hop, -⟩
      · exact (removeOldNodes_lives hsweep (fun _ => Int.lt_succ now) halive.livesUntil).mem
      · cases hop
  | cleanup => cases hupdates
  | reset wallClock => cases hupdates
  | setLocked b => cases hupdates
  | watch => cases hupdates

end

end Awds.Proofs
