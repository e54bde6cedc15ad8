import Awds.Proofs.Topology.Assertions

/-!
# `Awds.Proofs.Topology.CleanupTime`: when the next cleanup is due

`cleanup_nodes` arms its timer with the time that `removeOldNodes` returns. The pass takes the
minimum over the nodes that it leaves in the map, and over nothing else: the links of a node
have a validity of their own, which the pass compares with the current time only.

`cleanupTime_iff` says when the returned time is not later than any remaining validity. It is
about every state. What the pass reads of an entry is its `outline`, and the pass changes no
outline but that of the node it visits, whatever the pointers of the links are.
-/

set_option autoImplicit false

namespace Awds.Proofs

open Std (ExtTreeMap)
open Awds.Lib Awds.AdjList Awds.RTopology

/-! ### The minimum of a list -/

/-- The minimum is reached by the start or by an element. -/
theorem foldl_min_le_iff (l : List AbsTime) (a y : AbsTime) :
    l.foldl min a ≤ y ↔ a ≤ y ∨ ∃ x ∈ l, x ≤ y := by
  induction l generalizing a with
  | nil => simp
  | cons x l ih => simp only [List.foldl_cons, ih, min_le_iff, List.mem_cons, exists_eq_or_imp,
      or_assoc]

/-- A bound below the minimum is below all of them. -/
theorem lt_foldl_min_iff (l : List AbsTime) (a y : AbsTime) :
    y < l.foldl min a ↔ y < a ∧ ∀ x ∈ l, y < x := by
  induction l generalizing a with
  | nil => simp
  | cons x l ih => simp only [List.foldl_cons, ih, lt_min_iff, List.forall_mem_cons, and_assoc]

/-! ### What the pass reads -/

/-- An entry as the pass sees it: its validities, and the neighbours and qualities of its
links. -/
structure Outline where
  nodeValidity : AbsTime
  edgeValidity : AbsTime
  links : List (NodeId × UInt16)

/-- The outline of an entry. -/
def outline (nd : NDescr) : Outline where
  nodeValidity := nd.nodeValidity
  edgeValidity := nd.edgeValidity
  links := nd.links.map shape

/-- The outline keeps the validity of the node. -/
@[simp] theorem outline_nodeValidity (nd : NDescr) :
    (outline nd).nodeValidity = nd.nodeValidity := rfl

/-- The outline keeps the validity of the links. -/
@[simp] theorem outline_edgeValidity (nd : NDescr) :
    (outline nd).edgeValidity = nd.edgeValidity := rfl

/-- The outline keeps the neighbours and the qualities. -/
@[simp] theorem outline_links (nd : NDescr) : (outline nd).links = nd.links.map shape := rfl

/-- The maps have the same entries, as far as the pass reads them. -/
def SameOutline (adj adj' : AdjList) : Prop :=
  ∀ u : NodeId, adj'[u]?.map outline = adj[u]?.map outline

section
variable {adj adj' : AdjList} {p : LinkPtr}

/-- A change that keeps the neighbour and the quality of a link is not seen by the pass. -/
theorem sameOutline_modifyLink {f : LinkQuality → LinkQuality} (hf : ∀ l, shape (f l) = shape l)
    (h : adj.modifyLink p f = .ok adj') : SameOutline adj adj' := by
  unfold AdjList.modifyLink at h
  split at h
  · cases h
  · cases h
    intro u
    rw [getElem?_modifyAt]
    split
    · rw [Option.map_map]
      congr 1
      funext nd
      rw [Function.comp_apply, outline, NDescr.links_modifyLink, map_shape_modify hf]
      rfl
    · rfl

/-- Removing a reference disconnects the counterpart, which the pass does not see. -/
theorem sameOutline_removeReference (h : adj.removeReference p = .ok adj') :
    SameOutline adj adj' := by
  unfold removeReference at h
  obtain ⟨l, -, h⟩ := bind_eq_ok.mp h
  split at h
  · cases h
    exact fun _ => rfl
  · obtain ⟨adj1, h1, h2⟩ := bind_eq_ok.mp h
    have hsame1 : SameOutline adj adj1 :=
      sameOutline_modifyLink (f := disconnect) (fun _ => rfl) h1
    have hsame2 : SameOutline adj1 adj' :=
      sameOutline_modifyLink (f := disconnect) (fun _ => rfl) h2
    exact fun u => (hsame2 u).trans (hsame1 u)

end

/-! ### The pass -/

/-- The outline of an entry behind its turn, none if the node is dropped. -/
def passedOutline (t : AbsTime) (o : Outline) : Option Outline :=
  if o.nodeValidity ≤ t then none
  else if o.edgeValidity ≤ t then some { o with links := [] }
  else some o

/-- The time at which a node that is left expires. -/
def lifetime (t : AbsTime) (adj : AdjList) (u : NodeId) : Option AbsTime :=
  adj[u]?.bind fun nd => if nd.nodeValidity ≤ t then none else some nd.nodeValidity

/-- The state of the pass over the map `adj` behind the nodes `done`. -/
structure PassInv (t start : AbsTime) (adj : AdjList) (done : List NodeId) (w : Sweep) : Prop where
  entry : ∀ u : NodeId, w.adj[u]?.map outline =
    if u ∈ done then (adj[u]?.map outline).bind (passedOutline t) else adj[u]?.map outline
  next : w.nextTimeout = (done.filterMap (lifetime t adj)).foldl min start

section
variable {t start : AbsTime} {adj : AdjList} {done : List NodeId} {w w' : Sweep} {id : NodeId}

/-- One turn, on the outlines and the time of the next cleanup. -/
theorem visit_outline (h : w.visit t id = .ok w') :
    (∀ u : NodeId, w'.adj[u]?.map outline =
      if u = id then (w.adj[u]?.map outline).bind (passedOutline t) else w.adj[u]?.map outline) ∧
    w'.nextTimeout = (lifetime t w.adj id).toList.foldl min w.nextTimeout := by
  unfold Sweep.visit at h
  cases hid : w.adj[id]? with
  | none =>
    simp only [hid, Except.ok.injEq] at h
    subst h
    refine ⟨fun u => ?_, by simp [lifetime, hid]⟩
    split
    · rename_i hu
      subst hu
      simp [hid]
    · rfl
  | some nd =>
    simp only [hid] at h
    obtain ⟨w1, hdrop, h⟩ := bind_eq_ok.mp h
    cases h
    -- dropping the links
    have hedges : w1.nextTimeout = w.nextTimeout ∧ ∀ u : NodeId, w1.adj[u]?.map outline =
        if u = id ∧ nd.edgeValidity ≤ t then
          some { outline nd with links := [] } else w.adj[u]?.map outline := by
      unfold Sweep.dropEdges at hdrop
      split at hdrop
      · rename_i hexp
        obtain ⟨adj1, hfold, hdrop⟩ := bind_eq_ok.mp hdrop
        cases hdrop
        have hsame : SameOutline w.adj adj1 :=
          foldlM_invariant (P := SameOutline w.adj) _ _ _
            (fun a i a' _ ha hrun u => (sameOutline_removeReference hrun u).trans (ha u))
            (fun _ => rfl) hfold
        refine ⟨rfl, fun u => ?_⟩
        rw [getElem?_modifyAt]
        by_cases hu : id = u
        · subst hu
          have hentry := hsame id
          rw [hid] at hentry
          obtain ⟨nd1, hnd1, hout⟩ := Option.map_eq_some_iff.mp hentry
          simp only [outline, Outline.mk.injEq] at hout
          simp [hnd1, outline, NDescr.links, hexp, hout.1, hout.2.1]
        · rw [if_neg hu, if_neg (fun h => hu h.1.symm), hsame u]
      · rename_i hexp
        cases hdrop
        exact ⟨rfl, fun u => by rw [if_neg (fun h => hexp h.2)]⟩
    obtain ⟨hnext, hentry⟩ := hedges
    unfold Sweep.dropNode
    split
    · -- the node itself has expired
      rename_i hnode
      refine ⟨fun u => ?_, by simp [lifetime, hid, hnode, hnext]⟩
      rw [getElem?_eraseAt]
      by_cases hu : id = u
      · subst hu
        simp [hid, outline, passedOutline, hnode]
      · rw [if_neg hu, if_neg (Ne.symm hu), hentry, if_neg (fun h => hu h.1.symm)]
    · rename_i hnode
      refine ⟨fun u => ?_, by simp [lifetime, hid, hnode, hnext]⟩
      rw [hentry]
      by_cases hu : u = id
      · subst hu
        by_cases hexp : nd.edgeValidity ≤ t <;> simp [hid, outline, passedOutline, hnode, hexp]
      · rw [if_neg hu, if_neg (fun h => hu h.1)]

/-- One turn of the pass. -/
theorem PassInv.step (inv : PassInv t start adj done w) (hid : id ∉ done)
    (h : w.visit t id = .ok w') : PassInv t start adj (done ++ [id]) w' := by
  obtain ⟨hentry, hnext⟩ := visit_outline h
  have hahead : w.adj[id]?.map outline = adj[id]?.map outline := by
    rw [inv.entry, if_neg hid]
  have hlife : lifetime t w.adj id = lifetime t adj id := by
    have hof : ∀ a : AdjList, lifetime t a id =
        (a[id]?.map outline).bind fun o =>
          if o.nodeValidity ≤ t then none else some o.nodeValidity := by
      intro a
      unfold lifetime
      cases a[id]? <;> rfl
    rw [hof, hof, hahead]
  refine ⟨fun u => ?_, ?_⟩
  · rw [hentry]
    by_cases hu : u = id
    · subst hu
      rw [if_pos rfl, if_pos (by simp), hahead]
    · rw [if_neg hu, inv.entry]
      simp only [List.mem_append, List.mem_singleton, hu, or_false]
  · rw [hnext, hlife, inv.next, List.filterMap_append, List.foldl_append]
    cases hl : lifetime t adj id <;> simp [hl]

/-- The whole pass. -/
theorem PassInv.pass : ∀ (ks done : List NodeId) (w w' : Sweep), PassInv t start adj done w →
    (done ++ ks).Nodup → ks.foldlM (Sweep.visit t) w = .ok w' →
    PassInv t start adj (done ++ ks) w' := by
  intro ks
  induction ks with
  | nil =>
    intro done w w' inv _ h
    cases h
    rwa [List.append_nil]
  | cons k ks ih =>
    intro done w w' inv hnd h
    have hk : k ∉ done := fun hmem =>
      (List.nodup_append.mp hnd).2.2 k hmem k List.mem_cons_self rfl
    rw [List.foldlM_cons] at h
    obtain ⟨w1, hvisit, hrest⟩ := bind_eq_ok.mp h
    rw [List.append_cons] at hnd ⊢
    exact ih (done ++ [k]) w1 w' (inv.step hk hvisit) hnd hrest

end

/-! ### The time of the next cleanup -/

/-- The cleanup at the time `next` is not too late: no node and no link list of the map expires
before it. -/
def Timely (adj : AdjList) (next : AbsTime) : Prop :=
  ∀ (u : NodeId) (nd : NDescr), adj[u]? = some nd →
    next ≤ nd.nodeValidity ∧ (nd.links ≠ [] → next ≤ nd.edgeValidity)

/-- The links that are left do not expire before a node that is left does, or they live as long as
the pass may be put off at most. -/
def LinksCovered (t : AbsTime) (adj : AdjList) : Prop :=
  ∀ (u : NodeId) (nd : NDescr), adj[u]? = some nd → t < nd.nodeValidity → t < nd.edgeValidity →
    nd.links ≠ [] → t + maxCleanupDelay ≤ nd.edgeValidity ∨
      ∃ (v : NodeId) (n : NDescr), adj[v]? = some n ∧ t < n.nodeValidity ∧
        n.nodeValidity ≤ nd.edgeValidity

section
variable {t : AbsTime} {s s' : RTopology} {next : AbsTime}

/-- The state and the time that `removeOldNodes` returns. -/
theorem removeOldNodes_passInv (hlocked : s.locked = false)
    (h : s.removeOldNodes t = .ok (s', next)) :
    ∃ w, PassInv t (t + maxCleanupDelay) s.adjList s.adjList.keys w ∧ s'.adjList = w.adj ∧
      next = w.nextTimeout := by
  unfold removeOldNodes at h
  split at h
  · cases h
  · rw [hlocked, if_neg (by simp)] at h
    obtain ⟨w, hfold, h⟩ := bind_eq_ok.mp h
    have hnd : ([] ++ s.adjList.keys).Nodup := by
      rw [List.nil_append]
      exact ExtTreeMap.nodup_keys
    have hstart : PassInv t (t + maxCleanupDelay) s.adjList []
        { adj := s.adjList, nextTimeout := t + maxCleanupDelay } := ⟨fun _ => by simp, rfl⟩
    have inv := PassInv.pass s.adjList.keys [] _ w hstart hnd hfold
    cases h
    refine ⟨w, inv, ?_, rfl⟩
    show (if w.oneRemoved then _ else _ : RTopology).adjList = w.adj
    split
    · exact emit_adjList _ _
    · rfl

/-- The lifetimes of the nodes that are left. -/
theorem mem_lifetimes_iff {adj : AdjList} {x : AbsTime} :
    x ∈ adj.keys.filterMap (lifetime t adj) ↔
      ∃ (v : NodeId) (n : NDescr), adj[v]? = some n ∧ t < n.nodeValidity ∧ n.nodeValidity = x := by
  rw [List.mem_filterMap]
  constructor
  · rintro ⟨v, -, hv⟩
    obtain ⟨n, hn, hx⟩ := Option.bind_eq_some_iff.mp hv
    split at hx
    · cases hx
    · rename_i hlive
      exact ⟨v, n, hn, not_le.mp hlive, Option.some.inj hx⟩
  · rintro ⟨v, n, hn, hlive, rfl⟩
    refine ⟨v, ExtTreeMap.mem_keys.mpr ((mem_iff_getElem? _ _).mpr ⟨n, hn⟩), ?_⟩
    simp only [lifetime, hn, Option.bind_some, if_neg (not_le.mpr hlive)]

/-- The entries that are left are those whose node has not expired. They have kept their
validities, and their links if these have not expired. -/
theorem PassInv.left_iff {start : AbsTime} {adj : AdjList} {w : Sweep}
    (inv : PassInv t start adj adj.keys w) {u : NodeId} {o : Outline} :
    w.adj[u]?.map outline = some o ↔ ∃ nd, adj[u]? = some nd ∧ t < nd.nodeValidity ∧
      o = if nd.edgeValidity ≤ t then { outline nd with links := [] } else outline nd := by
  rw [inv.entry]
  split
  · cases adj[u]? with
    | none => simp
    | some nd =>
      by_cases hlive : nd.nodeValidity ≤ t
      · simp [passedOutline, outline, hlive]
      · by_cases hedge : nd.edgeValidity ≤ t <;>
          simp [passedOutline, outline, hlive, hedge, eq_comm, not_le.mp hlive]
  · rename_i hu
    have hnone := (not_mem_iff_getElem? _ _).mp (fun h => hu (ExtTreeMap.mem_keys.mpr h))
    simp [hnone]

/-- `removeOldNodes` returns in every run without a packet that fails the second size check, as
long as there is a node. In every unlocked state in which it returns, the returned time is later
than the current one and not later than any remaining validity exactly if the links that are
left are covered. -/
theorem cleanupTime_iff (st : Station) (hlocked : s.locked = false) (t : AbsTime) :
    (Reachable st FeedsWhole s → s.adjList.isEmpty = false →
      ∃ s' next, s.removeOldNodes t = .ok (s', next)) ∧
    ∀ s' next, s.removeOldNodes t = .ok (s', next) →
      (t < next ∧ Timely s'.adjList next ↔ LinksCovered t s.adjList) := by
  refine ⟨fun hr hne => ?_, fun s' next hrun => ?_⟩
  · obtain ⟨adj', next, -, hrun⟩ :=
      removeOldNodes_run t (consistent_of_reachable (reachable_feedsSized hr)) hne hlocked
    exact ⟨_, next, hrun⟩
  · obtain ⟨w, inv, hadj, rfl⟩ := removeOldNodes_passInv hlocked hrun
    have hlater : t < w.nextTimeout := by
      rw [inv.next, lt_foldl_min_iff]
      refine ⟨by simp [maxCleanupDelay], fun x hx => ?_⟩
      obtain ⟨v, n, -, hlive, rfl⟩ := mem_lifetimes_iff.mp hx
      exact hlive
    -- the returned time is not later than `y` if the maximum or a node that is left is not
    have hle : ∀ y, w.nextTimeout ≤ y ↔ t + maxCleanupDelay ≤ y ∨
        ∃ (v : NodeId) (n : NDescr), s.adjList[v]? = some n ∧ t < n.nodeValidity ∧
          n.nodeValidity ≤ y := by
      intro y
      rw [inv.next, foldl_min_le_iff]
      refine or_congr Iff.rfl ⟨?_, ?_⟩
      · rintro ⟨x, hx, hxy⟩
        obtain ⟨v, n, hn, hlive, rfl⟩ := mem_lifetimes_iff.mp hx
        exact ⟨v, n, hn, hlive, hxy⟩
      · rintro ⟨v, n, hn, hlive, hxy⟩
        exact ⟨_, mem_lifetimes_iff.mpr ⟨v, n, hn, hlive, rfl⟩, hxy⟩
    have houtline : ∀ {u : NodeId} {nd : NDescr}, s'.adjList[u]? = some nd →
        w.adj[u]?.map outline = some (outline nd) := by
      intro u nd hu
      rw [← hadj, hu]
      rfl
    constructor
    · rintro ⟨-, htimely⟩ u nd hu hlive hedge hlinks
      rw [← hle]
      -- the entry is left with its links
      obtain ⟨nd', hu', hout⟩ := Option.map_eq_some_iff.mp (inv.left_iff.mpr ⟨nd, hu, hlive, rfl⟩)
      rw [if_neg (not_le.mpr hedge)] at hout
      simp only [outline, Outline.mk.injEq] at hout
      rw [← hout.2.1]
      refine (htimely u nd' (by rw [hadj, hu'])).2 fun hnil => hlinks ?_
      rw [hnil] at hout
      exact List.map_eq_nil_iff.mp hout.2.2.symm
    · refine fun hcovered => ⟨hlater, fun u nd' hu => ?_⟩
      obtain ⟨nd, hnd, hlive, hout⟩ := inv.left_iff.mp (houtline hu)
      have hnode : nd'.nodeValidity = nd.nodeValidity := by
        split at hout <;> exact congrArg Outline.nodeValidity hout
      refine ⟨?_, fun hlinks => ?_⟩
      · rw [hle, hnode]
        exact .inr ⟨u, nd, hnd, hlive, le_rfl⟩
      · split at hout
        · exact absurd (List.map_eq_nil_iff.mp (congrArg Outline.links hout)) hlinks
        · rename_i hexp
          have hedge : nd'.edgeValidity = nd.edgeValidity := congrArg Outline.edgeValidity hout
          rw [hle, hedge]
          refine hcovered u nd hnd hlive (not_le.mp hexp) fun hnil => hlinks ?_
          have hmap : nd'.links.map shape = nd.links.map shape := congrArg Outline.links hout
          rw [hnil] at hmap
          exact List.map_eq_nil_iff.mp hmap

end

/-! ### Station 2 announces its links for a shorter time -/

/-- A packet that is long enough for its links is whole. -/
theorem feedsWhole_of_sized {s : RTopology} {e : Event} (h : FeedsSized e) : FeedsWhole s e :=
  fun p hop => .inr (.inr (h p hop))

/-- A test for `LinksCovered`. -/
def linksCovered (t : AbsTime) (adj : AdjList) : Bool :=
  adj.toList.all fun e => e.2.links.isEmpty ||
    adj.toList.any fun e' => decide (t < e'.2.nodeValidity) &&
      decide (e'.2.nodeValidity ≤ e.2.edgeValidity)

/-- The test looks at every entry with links. -/
theorem linksCovered_of_test {t : AbsTime} {adj : AdjList} (h : linksCovered t adj = true) :
    LinksCovered t adj := by
  intro u nd hu _ _ hlinks
  have hone := List.all_eq_true.mp h (u, nd) (ExtTreeMap.mem_toList_iff_getElem?_eq_some.mpr hu)
  simp only [Bool.or_eq_true, List.isEmpty_iff, hlinks, false_or, List.any_eq_true,
    Bool.and_eq_true, decide_eq_true_eq] at hone
  obtain ⟨e', he', hlive, hle⟩ := hone
  exact .inr ⟨e'.1, e'.2, ExtTreeMap.mem_toList_iff_getElem?_eq_some.mp he', hlive, hle⟩

/-- Both stations announce their links for 9 seconds. -/
def evenRun : List Event :=
  [⟨0, .feed (topoOf 1 9000 [(2, 10)])⟩, ⟨0, .feed (topoOf 2 9000 [(1, 20)])⟩]

/-- The cleanup behind it is in time. -/
theorem cleanupTime_evenRun :
    ∃ s s' next, evenRun.foldlM (exec (.hopCount 1)) (init (.hopCount 1) 0) = .ok s ∧
      s.removeOldNodes 0 = .ok (s', next) ∧ 0 < next ∧ Timely s'.adjList next := by
  obtain ⟨s, hs, htest⟩ := exists_of_test
    (evenRun.foldlM (exec (.hopCount 1)) (init (.hopCount 1) 0))
    (fun s => !s.locked && (!s.adjList.isEmpty && linksCovered 0 s.adjList)) (by decide +kernel)
  simp only [Bool.and_eq_true, Bool.not_eq_true'] at htest
  obtain ⟨hlocked, hne, hcovered⟩ := htest
  have hsized : ∀ e ∈ evenRun, FeedsSized e := feedsSized_of_all (by decide +kernel)
  have hr : Reachable (.hopCount 1) FeedsWhole s :=
    ⟨0, steps_of_events evenRun _ s (fun e he _ => feedsWhole_of_sized (hsized e he)) hs⟩
  obtain ⟨hreturns, hiff⟩ := cleanupTime_iff (.hopCount 1) hlocked 0
  obtain ⟨s', next, hrun⟩ := hreturns hr hne
  obtain ⟨hlater, htimely⟩ := (hiff s' next hrun).mpr (linksCovered_of_test hcovered)
  exact ⟨s, s', next, hs, hrun, hlater, htimely⟩

/-- The links of station 2 expire after 5 seconds, and the next cleanup is due after 9. -/
theorem cleanup_too_late :
    ∃ s s' next, Reachable (.hopCount 1) FeedsWhole s ∧ s.locked = false ∧
      s.removeOldNodes 0 = .ok (s', next) ∧ ¬ (0 < next ∧ Timely s'.adjList next) := by
  obtain ⟨s, hs, htest⟩ := exists_of_test
    (mutualRun.foldlM (exec (.hopCount 1)) (init (.hopCount 1) 0))
    (fun s => !s.locked && returnsWith (s.removeOldNodes 0) fun x =>
      x.1.adjList[(2 : NodeId)]?.any fun (nd : NDescr) =>
        !nd.links.isEmpty && decide (nd.edgeValidity < x.2))
    (by decide +kernel)
  rw [Bool.and_eq_true, Bool.not_eq_true'] at htest
  obtain ⟨hlocked, htest⟩ := htest
  obtain ⟨⟨s', next⟩, hrun, hany⟩ := exists_of_returnsWith htest
  obtain ⟨nd, hnd, hlate⟩ := (Option.any_eq_true _ _).mp hany
  simp only [Bool.and_eq_true, Bool.not_eq_true', List.isEmpty_eq_false_iff,
    decide_eq_true_eq] at hlate
  refine ⟨s, s', next, ⟨0, steps_of_events mutualRun _ s (fun e he _ =>
    feedsWhole_of_sized (feedsSized_mutualRun e he)) hs⟩, hlocked, hrun, fun h => ?_⟩
  exact absurd ((h.2 2 nd hnd).2 hlate.1) (not_le.mpr hlate.2)

end Awds.Proofs
