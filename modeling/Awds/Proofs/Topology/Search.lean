import Awds.Lib.ShortestPath
import Awds.Proofs.Topology.Cleanup
import Awds.Proofs.Topology.Routes

/-!
# `Awds.Proofs.Topology.Search`: `calcRoutes` finds shortest routes

`calcRoutes` is a label-setting search, so its proof instantiates `Settling`. The labels
are 32-bit numbers, and the sums do not overflow: there are at most 1024 nodes, a link
weighs at most `(2^32 - 1) / 1024`, and a finite label is at most the product of the two
(`relaxLinks_settling`, `SearchInv.run`). `relaxSums` and `routeSums` list the sums that the
search computes.

`calcNextHop` walks the tree of predecessors down to the own node. The distance drops on
the way, so the recursion ends and the assertion in it holds (`calcNextHop_run`).

`calcRoutes_run` puts the two together. `calcRoutes_correct` and `calcRoutes_exact` read the
result off its invariants.
-/

set_option autoImplicit false

namespace Awds.Proofs

open Std (ExtTreeMap)
open Awds.Lib Awds.AdjList

/-! ### The graph of a topology -/

/-- A link of the topology between two of its nodes, with its weight. -/
def Edge (adj : AdjList) (u v : NodeId) (c : Nat) : Prop :=
  v ∈ adj ∧ ∃ l ∈ adj.linksOf u, l.neighbor = v ∧ l.metricWeight.toNat = c

/-- The weights of the links are those that `calculate` can store. -/
def WeightsIn (adj : AdjList) : Prop :=
  ∀ u, ∀ l ∈ adj.linksOf u, 1 ≤ l.metricWeight.toNat ∧ l.metricWeight.toNat ≤ Metric.ceiling.toNat

/-- The predecessor of a node. -/
def prevOf (adj : AdjList) (id : NodeId) : NodeId :=
  match adj[id]? with
  | none => 0
  | some nd => nd.prevHop

/-- The edges depend on the nodes and the links only, not on the labels of the search. -/
theorem SameGraph.edge {adj adj' : AdjList} (h : SameGraph adj adj') : Edge adj' = Edge adj := by
  funext u v c
  simp only [Edge, h.linksOf, h.mem_iff]

/-- An edge begins at a node of the map. -/
theorem Edge.source_mem {adj : AdjList} {u v : NodeId} {c : Nat} (h : Edge adj u v c) :
    u ∈ adj := by
  obtain ⟨-, l, hl, -⟩ := h
  obtain ⟨nd, hu, -⟩ := getElem?_of_mem_linksOf hl
  exact (mem_iff_getElem? _ _).mpr ⟨nd, hu⟩

/-- The weight of an edge is positive and at most the ceiling, as `Metric` promises it for the
links. -/
theorem Edge.weight {adj : AdjList} (hw : WeightsIn adj) {u v : NodeId} {c : Nat}
    (h : Edge adj u v c) : 0 < c ∧ c ≤ Metric.ceiling.toNat := by
  obtain ⟨-, l, hl, -, rfl⟩ := h
  exact hw u l hl

/-- The label of a node that is in the map. -/
theorem distanceOf_of_mem {adj : AdjList} {u : NodeId} {nd : NDescr} (h : adj[u]? = some nd) :
    adj.distanceOf u = nd.distance := by
  simp only [distanceOf, h]

/-- The predecessor of a node that is in the map. -/
theorem prevOf_of_mem {adj : AdjList} {u : NodeId} {nd : NDescr} (h : adj[u]? = some nd) :
    prevOf adj u = nd.prevHop := by
  simp only [prevOf, h]

/-! ### The search -/

/-- The map after the node `v` got the label `d` from `u`. -/
def relabel (adj : AdjList) (v : NodeId) (d : Nat) (u : NodeId) : AdjList :=
  adj.modify v fun nd => { nd with distance := d, prevHop := u }

/-- Relabelling a node sets its distance and keeps all the others. -/
theorem distanceOf_relabel {adj : AdjList} {v : NodeId} (hv : v ∈ adj) (d : Nat) (u x : NodeId) :
    AdjList.distanceOf (relabel adj v d u) x = if x = v then d else adj.distanceOf x := by
  obtain ⟨nd, hnd⟩ := (mem_iff_getElem? _ _).mp hv
  unfold AdjList.distanceOf relabel
  by_cases hx : x = v
  · subst hx
    simp [hnd]
  · simp [hx, Ne.symm hx]

/-- Relabelling a node sets its predecessor and keeps all the others. -/
theorem prevOf_relabel {adj : AdjList} {v : NodeId} (hv : v ∈ adj) (d : Nat) (u x : NodeId) :
    prevOf (relabel adj v d u) x = if x = v then u else prevOf adj x := by
  obtain ⟨nd, hnd⟩ := (mem_iff_getElem? _ _).mp hv
  unfold prevOf relabel
  by_cases hx : x = v
  · subst hx
    simp [hnd]
  · simp [hx, Ne.symm hx]

/-- The map after a link of weight `c` from `u` to `v` was looked at. -/
def relaxed (adj : AdjList) (u v : NodeId) (c : Nat) : AdjList :=
  if adj.distanceOf u + c < adj.distanceOf v then relabel adj v (adj.distanceOf u + c) u else adj

/-- Relaxing an edge changes labels only. -/
theorem relaxed_sameGraph (adj : AdjList) (u v : NodeId) (c : Nat) :
    SameGraph adj (relaxed adj u v c) := by
  unfold relaxed
  split
  · exact .modify adj v fun _ => rfl
  · exact .refl adj

/-- Relaxing the edge to `v` sets its distance to the sum where this is smaller. -/
theorem distanceOf_relaxed {adj : AdjList} {v : NodeId} (hv : v ∈ adj) (u : NodeId) (c : Nat)
    (x : NodeId) :
    AdjList.distanceOf (relaxed adj u v c) x =
      if x = v ∧ adj.distanceOf u + c < adj.distanceOf v then adj.distanceOf u + c
      else adj.distanceOf x := by
  unfold relaxed
  by_cases hlt : adj.distanceOf u + c < adj.distanceOf v
  · rw [if_pos hlt, distanceOf_relabel hv]
    simp only [hlt, and_true]
  · rw [if_neg hlt, if_neg (fun h => hlt h.2)]

/-- Relaxing the edge to `v` makes `u` its predecessor where the sum is smaller. -/
theorem prevOf_relaxed {adj : AdjList} {v : NodeId} (hv : v ∈ adj) (u : NodeId) (c : Nat)
    (x : NodeId) :
    prevOf (relaxed adj u v c) x =
      if x = v ∧ adj.distanceOf u + c < adj.distanceOf v then u else prevOf adj x := by
  unfold relaxed
  by_cases hlt : adj.distanceOf u + c < adj.distanceOf v
  · rw [if_pos hlt, prevOf_relabel hv]
    simp only [hlt, and_true]
  · rw [if_neg hlt, if_neg (fun h => hlt h.2)]

/-- One pass of the loop over the links, for a link to a node that is in the map. -/
theorem relaxLinks_cons {adj : AdjList} {u : NodeId} {l : LinkQuality} {ls : List LinkQuality}
    (hmem : l.neighbor ∈ adj) (hfin : adj.distanceOf u < maxDistance)
    (hpos : 1 ≤ l.metricWeight.toNat)
    (hsum : adj.distanceOf u + l.metricWeight.toNat < 2 ^ 32) :
    adj.relaxLinks u (l :: ls) =
      (relaxed adj u l.neighbor l.metricWeight.toNat).relaxLinks u ls := by
  obtain ⟨neigh, hv⟩ := (mem_iff_getElem? _ _).mp hmem
  have hne0 : l.metricWeight ≠ 0 := by
    intro h0
    rw [h0] at hpos
    simp at hpos
  have hneigh : neigh.distance = adj.distanceOf l.neighbor := (distanceOf_of_mem hv).symm
  rw [relaxLinks, if_neg hfin.ne, hv]
  simp only [if_neg hne0, Nat.mod_eq_of_lt hsum, hneigh]
  rfl

/-- The sums that the loop over the links of `nearest` computes, before they are truncated. -/
def relaxSums (nearest : NodeId) : List LinkQuality → AdjList → List Nat
  | [], _ => []
  | l :: ls, adj =>
    if adj.distanceOf nearest = maxDistance then []
    else match adj[l.neighbor]? with
      | none => relaxSums nearest ls adj
      | some neigh =>
        let sum := adj.distanceOf nearest + l.metricWeight.toNat
        sum :: relaxSums nearest ls
          (if sum % 2 ^ 32 < neigh.distance then
            adj.modify l.neighbor fun nd =>
              { nd with distance := sum % 2 ^ 32, prevHop := nearest }
          else adj)

/-- The sums that the loop over `todo` computes. -/
def routeSums (st : Station) : Nat → List NodeId → AdjList → List Nat
  | 0, _, _ => []
  | n + 1, todo, adj =>
    let sorted := st.sort.sort (fun a b => decide (adj.distanceOf a > adj.distanceOf b)) todo
    match sorted.getLast? with
    | none => []
    | some nearest =>
      relaxSums nearest (adj.linksOf nearest) adj ++
        match adj.relaxLinks nearest (adj.linksOf nearest) with
        | .error _ => []
        | .ok adj' => routeSums st n sorted.dropLast adj'

/-- The sums that the inner loop forms: first the one for the head of the list, then those over the
map in which this edge has been relaxed. The sum fits in 32 bits, so it is the sum of the numbers.
-/
theorem relaxSums_cons {adj : AdjList} {u : NodeId} {l : LinkQuality} {ls : List LinkQuality}
    (hmem : l.neighbor ∈ adj) (hfin : adj.distanceOf u < maxDistance)
    (hsum : adj.distanceOf u + l.metricWeight.toNat < 2 ^ 32) :
    relaxSums u (l :: ls) adj = (adj.distanceOf u + l.metricWeight.toNat) ::
      relaxSums u ls (relaxed adj u l.neighbor l.metricWeight.toNat) := by
  obtain ⟨neigh, hv⟩ := (mem_iff_getElem? _ _).mp hmem
  have hneigh : neigh.distance = adj.distanceOf l.neighbor := (distanceOf_of_mem hv).symm
  rw [relaxSums, if_neg hfin.ne, hv]
  simp only [Nat.mod_eq_of_lt hsum, hneigh]
  rfl

section
variable {E : NodeId → NodeId → Nat → Prop} {s u : NodeId} {W k : Nat} {S : Set NodeId}

/-- The loop over the links of the node settled last. No sum is truncated. -/
theorem relaxLinks_settling (hu : u ∈ S) (hk : k * W < maxDistance) :
    ∀ (ls : List LinkQuality) (adj : AdjList) (D : NodeId → NodeId → Nat → Prop),
      Settling E s maxDistance W S k D adj.distanceOf (prevOf adj) →
      (∀ a ∈ S, adj.distanceOf a ≤ adj.distanceOf u) →
      (∀ l ∈ ls, l.neighbor ∈ adj → E u l.neighbor l.metricWeight.toNat) →
      (∀ l ∈ ls, 1 ≤ l.metricWeight.toNat ∧ l.metricWeight.toNat ≤ W) →
      adj.distanceOf u < maxDistance →
      ∃ adj', adj.relaxLinks u ls = .ok adj' ∧ (∀ x ∈ relaxSums u ls adj, x < 2 ^ 32) ∧
        SameGraph adj adj' ∧ prevOf adj' s = prevOf adj s ∧
        Settling E s maxDistance W S k
          (fun a v c => D a v c ∨
            (a = u ∧ ∃ l ∈ ls, l.neighbor = v ∧ v ∈ adj ∧ l.metricWeight.toNat = c))
          adj'.distanceOf (prevOf adj') := by
  intro ls
  induction ls with
  | nil =>
    intro adj D h _ _ _ _
    refine ⟨adj, rfl, by simp [relaxSums], .refl adj, rfl, h.mono ?_⟩
    rintro a v c (hD | ⟨-, r, hr, -⟩)
    · exact .inl hD
    · cases hr
  | cons l ls ih =>
    intro adj D h hlast hE hw hfin
    have hE' : ∀ r ∈ ls, r.neighbor ∈ adj → E u r.neighbor r.metricWeight.toNat :=
      fun r hr => hE r (List.mem_cons_of_mem _ hr)
    have hw' : ∀ r ∈ ls, 1 ≤ r.metricWeight.toNat ∧ r.metricWeight.toNat ≤ W :=
      fun r hr => hw r (List.mem_cons_of_mem _ hr)
    obtain ⟨hpos, hle⟩ := hw l List.mem_cons_self
    cases hv : adj[l.neighbor]? with
    | none =>
      -- A link to a node that is not in the map is passed over.
      obtain ⟨adj', hrun, hsums, hs, hp, hset⟩ := ih adj D h hlast hE' hw' hfin
      rw [relaxLinks, relaxSums, if_neg hfin.ne, if_neg hfin.ne, hv]
      refine ⟨adj', hrun, hsums, hs, hp, hset.mono ?_⟩
      rintro a v c (hD | ⟨rfl, r, hr, rfl, hmem, rfl⟩)
      · exact .inl (.inl hD)
      · rcases List.mem_cons.mp hr with rfl | hr
        · exact absurd hmem ((not_mem_iff_getElem? _ _).mpr hv)
        · exact .inl (.inr ⟨rfl, r, hr, rfl, hmem, rfl⟩)
    | some neigh =>
      have hmem : l.neighbor ∈ adj := (mem_iff_getElem? _ _).mpr ⟨neigh, hv⟩
      have hsum : adj.distanceOf u + l.metricWeight.toNat < 2 ^ 32 := by
        have := h.settledLe u hu hfin
        unfold maxDistance at hk
        omega
      have hs1 := relaxed_sameGraph adj u l.neighbor l.metricWeight.toNat
      have hprev1 := prevOf_relaxed hmem u l.metricWeight.toNat
      obtain ⟨h1, hu1, hlast1⟩ := h.relax hu hlast (hE l List.mem_cons_self hmem) hle hfin
        (distanceOf_relaxed hmem u l.metricWeight.toNat) hprev1
      have hps : prevOf (relaxed adj u l.neighbor l.metricWeight.toNat) s = prevOf adj s := by
        rw [hprev1, if_neg]
        rintro ⟨rfl, hlt⟩
        rw [h.source] at hlt
        omega
      obtain ⟨adj', hrun, hsums, hs, hp, hset⟩ := ih _ _ h1 hlast1
        (fun r hr hm => hE' r hr ((hs1.mem_iff _).mp hm)) hw' (hu1 ▸ hfin)
      rw [relaxLinks_cons hmem hfin hpos hsum, relaxSums_cons hmem hfin hsum]
      refine ⟨adj', hrun, List.forall_mem_cons.mpr ⟨hsum, hsums⟩, hs1.trans hs, hp.trans hps,
        hset.mono ?_⟩
      rintro a v c' (hD | ⟨rfl, r, hr, rfl, hmem', rfl⟩)
      · exact .inl (.inl (.inl hD))
      · rcases List.mem_cons.mp hr with rfl | hr
        · exact .inl (.inl (.inr ⟨rfl, rfl, rfl⟩))
        · exact .inl (.inr ⟨rfl, r, hr, rfl, (hs1.mem_iff _).mpr hmem', rfl⟩)

end

section
variable {st : Station} {adj0 : AdjList}

/-- The nodes that are settled when `todo` is left. -/
def settled (adj : AdjList) (todo : List NodeId) : Set NodeId :=
  {v | v ∈ adj ∧ v ∉ todo}

/-- The state of the search when `todo` is left and `k` nodes are settled. -/
structure SearchInv (st : Station) (adj0 : AdjList) (todo : List NodeId) (k : Nat)
    (adj : AdjList) : Prop where
  graph : SameGraph adj0 adj
  own : prevOf adj st.myNodeId = st.myNodeId
  settling : Settling (Edge adj0) st.myNodeId maxDistance Metric.ceiling.toNat
    (settled adj0 todo) k (fun a v c => a ∈ settled adj0 todo ∧ Edge adj0 a v c)
    adj.distanceOf (prevOf adj)

/-- The first loop of `calcRoutes` starts the search. -/
theorem SearchInv.start (hmy : st.myNodeId ∈ adj0) :
    SearchInv st adj0 adj0.keys 0 (adj0.initRoutes st) where
  graph := initRoutes_sameGraph _ adj0
  own := by
    obtain ⟨nd, hnd⟩ := (mem_iff_getElem? _ _).mp hmy
    simp [prevOf, initRoutes, hnd]
  settling := by
    -- No node is settled yet.
    have hempty : settled adj0 adj0.keys = ∅ := by
      ext v
      simp [settled]
    -- Only the own node has a distance.
    have hd : ∀ v, (adj0.initRoutes st).distanceOf v
        = if v = st.myNodeId then 0 else maxDistance := by
      intro v
      unfold distanceOf initRoutes
      rw [ExtTreeMap.getElem?_map]
      cases hv : adj0[v]? with
      | none =>
        have hne : v ≠ st.myNodeId := by
          rintro rfl
          exact (not_mem_iff_getElem? _ _).mpr hv hmy
        simp [hne]
      | some nd => by_cases hm : v = st.myNodeId <;> simp [hm]
    rw [hempty]
    exact (Settling.init (Edge adj0) st.myNodeId maxDistance Metric.ceiling.toNat hd).mono
      fun a v c h => h.1.elim

/-- A nonempty list that `std::sort` has put in descending order: the last element is
the smallest. -/
theorem sorted_last (st : Station) {todo : List NodeId} (key : NodeId → Nat) (hne : todo ≠ []) :
    ∃ rest nearest front,
      st.sort.sort (fun a b => decide (key a > key b)) todo = rest ++ [nearest] ∧
      (rest ++ [nearest]).head? = some front ∧ (rest ++ [nearest]).Perm todo ∧
      ∀ b ∈ todo, key nearest ≤ key b := by
  set sorted := st.sort.sort (fun a b => decide (key a > key b)) todo with hsorted
  have hperm : sorted.Perm todo := st.sort.perm _ _
  have hpair := st.sort.sorted key todo
  rw [← hsorted] at hpair
  have hne' : sorted ≠ [] := fun h => hne (by rw [h] at hperm; exact hperm.symm.eq_nil)
  obtain ⟨rest, nearest, heq⟩ : ∃ rest nearest, sorted = rest ++ [nearest] :=
    ⟨_, _, (List.dropLast_append_getLast hne').symm⟩
  obtain ⟨front, hfront⟩ : ∃ front, (rest ++ [nearest]).head? = some front := by
    cases rest with
    | nil => exact ⟨nearest, rfl⟩
    | cons x xs => exact ⟨x, rfl⟩
  rw [heq] at hperm hpair
  refine ⟨rest, nearest, front, heq, hfront, hperm, fun b hb => ?_⟩
  rcases List.mem_append.mp (hperm.mem_iff.mpr hb) with hb | hb
  · exact (List.pairwise_append.mp hpair).2.2 b hb nearest (by simp)
  · rw [List.mem_singleton.mp hb]

/-- Taking the nearest node from `todo` settles it. -/
theorem settled_insert {todo rest : List NodeId} {nearest : NodeId}
    (hperm : (rest ++ [nearest]).Perm todo) (hnd : todo.Nodup) (hin : ∀ v ∈ todo, v ∈ adj0) :
    settled adj0 rest = insert nearest (settled adj0 todo) := by
  have hnotrest : nearest ∉ rest := by
    have := hperm.nodup_iff.mpr hnd
    rw [List.nodup_append] at this
    exact fun hr => this.2.2 nearest hr nearest (by simp) rfl
  ext v
  simp only [settled, Set.mem_ofPred_eq, Set.mem_insert_iff]
  constructor
  · rintro ⟨hv, hvr⟩
    by_cases hvn : v = nearest
    · exact .inl hvn
    · refine .inr ⟨hv, fun hvt => ?_⟩
      have := hperm.mem_iff.mpr hvt
      simp [hvr, hvn] at this
  · rintro (rfl | ⟨hv, hvt⟩)
    · exact ⟨hin _ (hperm.mem_iff.mp (by simp)), hnotrest⟩
    · exact ⟨hv, fun hvr => hvt (hperm.mem_iff.mp (by simp [hvr]))⟩

/-- The nearest node of `todo` is nearest among all open ones. A node that is not in the map
has no label. -/
theorem SearchInv.nearest_le {todo : List NodeId} {nearest : NodeId} {k : Nat} {adj : AdjList}
    (inv : SearchInv st adj0 todo k adj)
    (hmin : ∀ b ∈ todo, adj.distanceOf nearest ≤ adj.distanceOf b) {b : NodeId}
    (hb : b ∉ settled adj0 todo) : adj.distanceOf nearest ≤ adj.distanceOf b := by
  by_cases hb0 : b ∈ adj0
  · exact hmin b (by_contra fun hbt => hb ⟨hb0, hbt⟩)
  · have hnone : adj[b]? = none := by
      rw [← not_mem_iff_getElem?, inv.graph.mem_iff]
      exact hb0
    have : adj.distanceOf b = maxDistance := by simp only [distanceOf, hnone]
    rw [this]
    exact inv.settling.bounded nearest

/-- One turn of the loop over `todo`: the nearest node is settled and its links are
relaxed. -/
theorem SearchInv.step {todo rest : List NodeId} {nearest : NodeId} {k : Nat} {adj : AdjList}
    (hw : WeightsIn adj0) (inv : SearchInv st adj0 todo k adj)
    (hk : (k + 1) * Metric.ceiling.toNat < maxDistance)
    (hperm : (rest ++ [nearest]).Perm todo) (hnd : todo.Nodup) (hin : ∀ v ∈ todo, v ∈ adj0)
    (hmin : ∀ b ∈ todo, adj.distanceOf nearest ≤ adj.distanceOf b) :
    ∃ adj', adj.relaxLinks nearest (adj.linksOf nearest) = .ok adj' ∧
      (∀ x ∈ relaxSums nearest (adj.linksOf nearest) adj, x < 2 ^ 32) ∧
      SearchInv st adj0 rest (k + 1) adj' := by
  have hset := inv.settling
  -- The nearest node is settled by this turn, as no other can have a smaller distance.
  have hS := settled_insert hperm hnd hin
  have hnotS : nearest ∉ settled adj0 todo := fun h => h.2 (hperm.mem_iff.mp (by simp))
  have hset1 := hset.settle fun b => inv.nearest_le hmin
  rw [← hS] at hset1
  have hlast : ∀ a ∈ settled adj0 rest, adj.distanceOf a ≤ adj.distanceOf nearest := by
    intro a ha
    rw [hS] at ha
    rcases Set.mem_insert_iff.mp ha with rfl | ha
    · exact le_rfl
    · exact hset.frontier a ha nearest hnotS
  have hnearS : nearest ∈ settled adj0 rest := hS ▸ Set.mem_insert _ _
  have hlinks := inv.graph.linksOf nearest
  -- Its links are relaxed, and none of the sums wraps.
  by_cases hfin : adj.distanceOf nearest < maxDistance
  · obtain ⟨adj', hrun, hsums, hsame, hprev, hset2⟩ := relaxLinks_settling hnearS hk
      (adj.linksOf nearest) adj _ hset1 hlast
      (fun l hl hmem => ⟨(inv.graph.mem_iff _).mp hmem, l, hlinks ▸ hl, rfl, rfl⟩)
      (fun l hl => hw nearest l (hlinks ▸ hl)) hfin
    refine ⟨adj', hrun, hsums, ⟨inv.graph.trans hsame, hprev.trans inv.own, hset2.mono ?_⟩⟩
    rintro a v c ⟨ha, he⟩
    rw [hS] at ha
    -- An edge is one of before, or one of the nearest node.
    rcases Set.mem_insert_iff.mp ha with rfl | ha
    · obtain ⟨hv, l, hl, hlv, hlc⟩ := he
      exact .inl (.inr ⟨rfl, l, hlinks ▸ hl, hlv, (inv.graph.mem_iff _).mpr hv, hlc⟩)
    · exact .inl (.inl ⟨ha, he⟩)
  · -- the nearest node is unreachable, so nothing is relaxed
    have hinf : adj.distanceOf nearest = maxDistance :=
      le_antisymm (hset.bounded nearest) (not_lt.mp hfin)
    refine ⟨adj, ?_, ?_, ⟨inv.graph, inv.own, hset1.mono ?_⟩⟩
    · cases adj.linksOf nearest with
      | nil => rfl
      | cons l ls => rw [relaxLinks, if_pos hinf]
    · cases adj.linksOf nearest with
      | nil => simp [relaxSums]
      | cons l ls => simp [relaxSums, hinf]
    · rintro a v c ⟨ha, he⟩
      rw [hS] at ha
      rcases Set.mem_insert_iff.mp ha with rfl | ha
      · exact .inr ⟨hnearS, hinf.ge⟩
      · exact .inl ⟨ha, he⟩

/-- The loop over `todo` ends with all nodes settled. -/
theorem SearchInv.run (hw : WeightsIn adj0) : ∀ (n : Nat) (todo : List NodeId) (k : Nat)
    (adj : AdjList), todo.length = n → todo.Nodup → (∀ v ∈ todo, v ∈ adj0) →
    (k + n) * Metric.ceiling.toNat < maxDistance → SearchInv st adj0 todo k adj →
    ∃ adj', adj.routeLoop st n todo = .ok adj' ∧ (∀ x ∈ routeSums st n todo adj, x < 2 ^ 32) ∧
      SearchInv st adj0 [] (k + n) adj' := by
  intro n
  induction n with
  | zero =>
    intro todo k adj hlen _ _ _ inv
    rw [List.length_eq_zero_iff] at hlen
    subst hlen
    exact ⟨adj, rfl, by simp [routeSums], inv⟩
  | succ n ih =>
    intro todo k adj hlen hnd hin hk inv
    have hne : todo ≠ [] := by
      rintro rfl
      cases hlen
    obtain ⟨rest, nearest, front, hsort, hfront, hperm, hmin⟩ :=
      sorted_last st adj.distanceOf hne
    have hfrontmem : front ∈ todo := hperm.mem_iff.mp (List.mem_of_head? hfront)
    have hk1 : (k + 1) * Metric.ceiling.toNat < maxDistance :=
      lt_of_le_of_lt (Nat.mul_le_mul_right _ (by omega)) hk
    -- One turn settles `nearest`, and `rest` is what is left of `todo`.
    obtain ⟨adj1, hrelax, hsums1, inv1⟩ := inv.step hw hk1 hperm hnd hin hmin
    have hlen' : rest.length = n := by
      have := hperm.length_eq
      simp only [List.length_append, List.length_singleton] at this
      omega
    have hcount : k + 1 + n = k + (n + 1) := by omega
    obtain ⟨adj', hrun, hsums, inv'⟩ := ih rest (k + 1) adj1 hlen'
      ((hperm.nodup_iff.mpr hnd).sublist (List.sublist_append_left _ _))
      (fun v hv => hin v (hperm.mem_iff.mp (by simp [hv])))
      (hcount ▸ hk) inv1
    refine ⟨adj', ?_, ?_, hcount ▸ inv'⟩
    · rw [routeLoop, hsort, hfront, List.getLast?_concat]
      simp only [if_pos (hmin front hfrontmem), hrelax, except_bind_ok, List.dropLast_concat]
      exact hrun
    · rw [routeSums, hsort, List.getLast?_concat]
      simp only [hrelax, List.dropLast_concat]
      exact List.forall_mem_append.mpr ⟨hsums1, hsums⟩

end

/-! ### The next hops -/

/-- The search does not touch the next hops. -/
theorem relaxLinks_nextHop (nearest : NodeId) : ∀ (ls : List LinkQuality) {adj adj' : AdjList},
    adj.relaxLinks nearest ls = .ok adj' →
      ∀ v : NodeId, adj'[v]?.map NDescr.nextHop = adj[v]?.map NDescr.nextHop := by
  intro ls
  induction ls with
  -- No link is left.
  | nil =>
    intro adj adj' h v
    cases h
    rfl
  | cons l ls ih =>
    intro adj adj' h v
    rw [relaxLinks] at h
    split at h
    · cases h
      rfl
    · split at h
      · exact ih h v
      · -- A distance and the node in front may change, the next hop not.
        split at h
        · cases h
        · rw [ih h v]
          split
          · rw [getElem?_modifyAt]
            split
            · rw [Option.map_map]
              rfl
            · rfl
          · rfl

/-- The search never writes the next hop of a node. The induction is on the fuel of the loop. -/
theorem routeLoop_nextHop {st : Station} : ∀ (n : Nat) (todo : List NodeId)
    {adj adj' : AdjList}, adj.routeLoop st n todo = .ok adj' →
      ∀ v : NodeId, adj'[v]?.map NDescr.nextHop = adj[v]?.map NDescr.nextHop := by
  intro n
  induction n with
  | zero =>
    intro todo adj adj' h v
    cases h
    rfl
  | succ n ih =>
    intro todo adj adj' h v
    rw [routeLoop] at h
    split at h
    · split at h
      · obtain ⟨adj1, h1, h2⟩ := bind_eq_ok.mp h
        rw [ih _ h2 v, relaxLinks_nextHop _ _ h1 v]
      · cases h
    · cases h
      rfl

/-- Maps with the same tree have the same distances. -/
theorem SameTree.distanceOf {adj adj' : AdjList} (h : SameTree adj adj') (u : NodeId) :
    adj'.distanceOf u = adj.distanceOf u := by
  unfold AdjList.distanceOf
  cases hu : adj'[u]? with
  | none =>
    have : adj[u]? = none := by
      rw [← not_mem_iff_getElem?, ← h.sameGraph.mem_iff, not_mem_iff_getElem?]
      exact hu
    rw [this]
  | some nd =>
    obtain ⟨n, hn, hd, -⟩ := h.entry hu
    rw [hn]
    exact hd.symm

section
variable {st : Station} {adj0 adj1 : AdjList}

/-- The number of nodes that are nearer than `id`. -/
def nearer (adj : AdjList) (id : NodeId) : Nat :=
  (adj.keys.toFinset.filter fun x => adj.distanceOf x < adj.distanceOf id).card

/-- The predecessor of a node has fewer nodes nearer than it. This is the measure of the way up the
tree. -/
theorem nearer_lt {adj : AdjList} {p id : NodeId} (hp : p ∈ adj)
    (h : adj.distanceOf p < adj.distanceOf id) : nearer adj p < nearer adj id := by
  apply Finset.card_lt_card
  refine Finset.ssubset_iff_subset_ne.mpr ⟨fun x hx => ?_, fun heq => ?_⟩
  · rw [Finset.mem_filter] at hx ⊢
    exact ⟨hx.1, hx.2.trans h⟩
  · have hmem : p ∈ adj.keys.toFinset.filter fun x => adj.distanceOf x < adj.distanceOf id := by
      rw [Finset.mem_filter, List.mem_toFinset, ExtTreeMap.mem_keys]
      exact ⟨hp, h⟩
    rw [← heq, Finset.mem_filter] at hmem
    exact lt_irrefl _ hmem.2

/-- No more nodes can be nearer than there are nodes in the map. -/
theorem nearer_le (adj : AdjList) (id : NodeId) : nearer adj id ≤ adj.size := by
  rw [← ExtTreeMap.length_keys]
  exact (Finset.card_filter_le _ _).trans (List.toFinset_card_le _)

/-- The map `adj` in the course of the computation of the next hops. `adj1` is the map
behind the search. -/
structure HopInv (st : Station) (adj1 adj : AdjList) : Prop where
  tree : SameTree adj1 adj
  hop : ∀ (v : NodeId) (nd : NDescr), adj[v]? = some nd → nd.nextHop = st.myNodeId ∨
    (nd.distance ≠ maxDistance ∧ v ≠ st.myNodeId ∧
      FirstHop st.myNodeId (prevOf adj1) v nd.nextHop)

/-- A next hop that is known is kept. -/
def KeepsHops (st : Station) (adj adj' : AdjList) : Prop :=
  ∀ (v : NodeId) (nd : NDescr), adj[v]? = some nd → nd.nextHop ≠ st.myNodeId →
    ∃ nd', adj'[v]? = some nd' ∧ nd'.nextHop = nd.nextHop

/-- Nothing has been computed yet, so nothing is lost. -/
theorem KeepsHops.refl (adj : AdjList) : KeepsHops st adj adj :=
  fun _ nd h _ => ⟨nd, h, rfl⟩

/-- Two steps that keep the next hops keep them together. -/
theorem KeepsHops.trans {a b c : AdjList} (h : KeepsHops st a b) (h' : KeepsHops st b c) :
    KeepsHops st a c := by
  intro v nd hv hne
  obtain ⟨n, hn, heq⟩ := h v nd hv hne
  obtain ⟨m, hm, heq'⟩ := h' v n hn (heq ▸ hne)
  exact ⟨m, hm, heq'.trans heq⟩

/-- Setting the next hop of a node that has none, or the same one. -/
theorem HopInv.set {adj : AdjList} {id x : NodeId} {d : NDescr} (inv : HopInv st adj1 adj)
    (hid : adj[id]? = some d) (hd : d.nextHop = st.myNodeId ∨ d.nextHop = x)
    (hx : x = st.myNodeId ∨ (d.distance ≠ maxDistance ∧ id ≠ st.myNodeId ∧
      FirstHop st.myNodeId (prevOf adj1) id x)) :
    HopInv st adj1 (adj.modify id fun nd => { nd with nextHop := x }) ∧
      KeepsHops st adj (adj.modify id fun nd => { nd with nextHop := x }) := by
  refine ⟨⟨inv.tree.trans (.setNextHop adj id _), ?_⟩, ?_⟩
  · intro v nd hv
    rw [getElem?_modifyAt] at hv
    split at hv
    · rename_i hidv
      subst hidv
      rw [hid, Option.map_some, Option.some.injEq] at hv
      subst hv
      exact hx
    · exact inv.hop v nd hv
  · intro v nd hv hne
    by_cases hvid : id = v
    · subst hvid
      rw [hid] at hv
      cases hv
      exact ⟨{ d with nextHop := x }, by rw [getElem?_modifyAt, if_pos rfl, hid]; rfl,
        (hd.resolve_left hne).symm⟩
    · exact ⟨nd, by rw [getElem?_modifyAt, if_neg hvid, hv], rfl⟩

/-- The predecessor of a node that is reached is a node of the map and nearer. -/
theorem SearchInv.predecessor {k : Nat} {id : NodeId} (hw : WeightsIn adj0)
    (search : SearchInv st adj0 [] k adj1) (hme : id ≠ st.myNodeId)
    (hlt : adj1.distanceOf id < maxDistance) :
    prevOf adj1 id ∈ adj1 ∧ adj1.distanceOf (prevOf adj1 id) < adj1.distanceOf id := by
  obtain ⟨hmem, c, he, hsum⟩ := search.settling.tree id hme hlt
  have hc := (he.weight hw).1
  exact ⟨(search.graph.mem_iff _).mpr hmem.1, by omega⟩

/-- A node takes over the next hop of its predecessor. -/
theorem HopInv.takeOver {adj : AdjList} {id p x : NodeId} {d : NDescr}
    (inv : HopInv st adj1 adj) (hid : adj[id]? = some d) (hfin : d.distance ≠ maxDistance)
    (hme : id ≠ st.myNodeId) (hprev : prevOf adj1 id = p) (hp : p ≠ st.myNodeId)
    (hx : FirstHop st.myNodeId (prevOf adj1) p x) :
    HopInv st adj1 (adj.modify id fun nd => { nd with nextHop := x }) ∧
      KeepsHops st adj (adj.modify id fun nd => { nd with nextHop := x }) := by
  subst hprev
  have hfirst : FirstHop st.myNodeId (prevOf adj1) id x := .there hp hx
  -- A next hop that `id` has already is the same one: there is one path to the root.
  have hsame : d.nextHop = st.myNodeId ∨ d.nextHop = x := by
    rcases inv.hop id d hid with h | ⟨-, -, h⟩
    · exact .inl h
    · exact .inr (h.unique hfirst)
  exact inv.set hid hsame (.inr ⟨hfin, hme, hfirst⟩)

/-- The recursion of `calcNextHop` from the node `id`. The number of nodes nearer than
`id` bounds its depth. -/
theorem calcNextHop_run {k : Nat} (hw : WeightsIn adj0)
    (search : SearchInv st adj0 [] k adj1) : ∀ (n : Nat) (id : NodeId) (adj : AdjList),
      HopInv st adj1 adj → id ∈ adj → nearer adj1 id < n →
      ∃ adj', adj.calcNextHop st n id = .ok adj' ∧ HopInv st adj1 adj' ∧
        KeepsHops st adj adj' ∧
        (adj1.distanceOf id < maxDistance → id ≠ st.myNodeId →
          ∃ nd, adj'[id]? = some nd ∧ nd.nextHop ≠ st.myNodeId) := by
  intro n
  induction n with
  | zero => exact fun id adj _ _ h => absurd h (Nat.not_lt_zero _)
  | succ n ih =>
    intro id adj inv hid hn
    obtain ⟨d, hd⟩ := (mem_iff_getElem? _ _).mp hid
    have hdist : adj1.distanceOf id = d.distance := by
      rw [← inv.tree.distanceOf, distanceOf_of_mem hd]
    obtain ⟨d1, hd1, -, hprev1, -⟩ := inv.tree.entry hd
    have hprev : prevOf adj1 id = d.prevHop := by rw [prevOf_of_mem hd1, hprev1]
    simp only [calcNextHop, touch_of_mem hid, hd]
    split
    · -- the node is not reached
      rename_i hinf
      have hnone : d.nextHop = st.myNodeId := by
        rcases inv.hop id d hd with h | ⟨h, -⟩
        · exact h
        · exact absurd hinf h
      obtain ⟨inv', hkeep⟩ := inv.set hd (.inl hnone) (.inl rfl)
      refine ⟨_, rfl, inv', hkeep, fun hlt => ?_⟩
      rw [hdist, hinf] at hlt
      exact absurd hlt (lt_irrefl _)
    · rename_i hfin
      split
      · rename_i hknown
        exact ⟨adj, rfl, inv, .refl adj, fun _ _ => ⟨d, hd, hknown⟩⟩
      · rename_i hnone
        have hnone : d.nextHop = st.myNodeId := not_not.mp hnone
        split
        · -- the node is a neighbour of the own node, or the own node itself
          rename_i hp
          have hx : id = st.myNodeId ∨ (d.distance ≠ maxDistance ∧ id ≠ st.myNodeId ∧
              FirstHop st.myNodeId (prevOf adj1) id id) := by
            by_cases hme : id = st.myNodeId
            · exact .inl hme
            · exact .inr ⟨hfin, hme, .here (hprev.trans hp)⟩
          obtain ⟨inv', hkeep⟩ := inv.set hd (.inl hnone) hx
          refine ⟨_, rfl, inv', hkeep, fun _ hne => ?_⟩
          exact ⟨{ d with nextHop := id }, by rw [getElem?_modifyAt, if_pos rfl, hd]; rfl, hne⟩
        · rename_i hp
          have hme : id ≠ st.myNodeId := by
            rintro rfl
            exact hp (hprev.symm.trans search.own)
          have hlt : adj1.distanceOf id < maxDistance :=
            lt_of_le_of_ne (search.settling.bounded id) (hdist ▸ hfin)
          obtain ⟨hpmem1, hplt⟩ := search.predecessor hw hme hlt
          rw [hprev] at hpmem1 hplt
          have hpmem : d.prevHop ∈ adj := (inv.tree.sameGraph.mem_iff _).mpr hpmem1
          have hassert : ¬ d.distance < adj.distanceOf d.prevHop := by
            rw [inv.tree.distanceOf, ← hdist]
            omega
          rw [touch_of_mem hpmem, if_neg hassert]
          -- The recursion on the predecessor, which has fewer nodes before it.
          have hdepth := nearer_lt hpmem1 hplt
          obtain ⟨adj2, hrun, inv2, hkeep2, hhop⟩ := ih d.prevHop adj inv hpmem (by omega)
          obtain ⟨p, hpe, hpne⟩ := hhop (by omega) hp
          rw [hrun, except_bind_ok, hpe]
          have hmem2 : id ∈ adj2 := by
            rw [inv2.tree.sameGraph.mem_iff, ← inv.tree.sameGraph.mem_iff]
            exact hid
          obtain ⟨d2, hd2⟩ := (mem_iff_getElem? _ _).mp hmem2
          have hfin2 : d2.distance ≠ maxDistance := by
            rw [← distanceOf_of_mem hd2, inv2.tree.distanceOf]
            exact hlt.ne
          have hfirst := ((inv2.hop _ _ hpe).resolve_left hpne).2.2
          obtain ⟨inv', hkeep⟩ := inv2.takeOver hd2 hfin2 hme hprev hp hfirst
          refine ⟨_, rfl, inv', hkeep2.trans hkeep, fun _ _ => ?_⟩
          exact ⟨{ d2 with nextHop := p.nextHop },
            by rw [getElem?_modifyAt, if_pos rfl, hd2]; rfl, hpne⟩

/-- The loop over all nodes at the end of `calcRoutes`. -/
theorem calcNextHops_run {k : Nat} (hw : WeightsIn adj0)
    (search : SearchInv st adj0 [] k adj1) : ∀ (ks : List NodeId) (adj : AdjList),
      HopInv st adj1 adj → (∀ id ∈ ks, id ∈ adj) →
      ∃ adj', ks.foldlM (fun (adj : AdjList) id => adj.calcNextHop st (adj.size + 1) id) adj
          = .ok adj' ∧ HopInv st adj1 adj' ∧ KeepsHops st adj adj' ∧
        ∀ id ∈ ks, adj1.distanceOf id < maxDistance → id ≠ st.myNodeId →
          ∃ nd, adj'[id]? = some nd ∧ nd.nextHop ≠ st.myNodeId := by
  intro ks
  induction ks with
  | nil => exact fun adj inv _ => ⟨adj, rfl, inv, .refl adj, by simp⟩
  | cons id ks ih =>
    intro adj inv hmem
    have hsize : adj.size = adj1.size := by
      rw [← ExtTreeMap.length_keys, ← ExtTreeMap.length_keys,
        keys_congr inv.tree.sameGraph.mem_iff]
    -- The fuel is enough: there are not more nearer nodes than nodes.
    have hn : nearer adj1 id < adj.size + 1 := by
      have := nearer_le adj1 id
      omega
    obtain ⟨adj2, hrun, inv2, hkeep2, hhop⟩ :=
      calcNextHop_run hw search (adj.size + 1) id adj inv (hmem id List.mem_cons_self) hn
    have hmem2 : ∀ x ∈ ks, x ∈ adj2 := by
      intro x hx
      rw [inv2.tree.sameGraph.mem_iff, ← inv.tree.sameGraph.mem_iff]
      exact hmem x (List.mem_cons_of_mem _ hx)
    obtain ⟨adj', hrest, inv', hkeep', hhops⟩ := ih adj2 inv2 hmem2
    refine ⟨adj', by rw [List.foldlM_cons, hrun]; exact hrest, inv', hkeep2.trans hkeep', ?_⟩
    intro x hx hlt hne
    rcases List.mem_cons.mp hx with rfl | hx
    · obtain ⟨nd, hnd, hnz⟩ := hhop hlt hne
      obtain ⟨nd', hnd', heq⟩ := hkeep' x nd hnd hnz
      exact ⟨nd', hnd', heq ▸ hnz⟩
    · exact hhops x hx hlt hne

end

/-- The routes in `adj` are the shortest ones from `me` in the graph of `adj0`. -/
structure RoutesCorrect (me : NodeId) (adj0 adj : AdjList) : Prop where
  graph : SameGraph adj0 adj
  reached : ∀ (v : NodeId) (nd : NDescr), adj[v]? = some nd → nd.distance < maxDistance →
    IsDist (Edge adj0) me v nd.distance
  unreached : ∀ (v : NodeId) (nd : NDescr), adj[v]? = some nd → ¬ nd.distance < maxDistance →
    nd.nextHop = me ∧ ∀ c, ¬ Walk (Edge adj0) me v c
  hop : ∀ (v : NodeId) (nd : NDescr), adj[v]? = some nd → v ≠ me → nd.distance < maxDistance →
    nd.nextHop ≠ me ∧ ∃ c d, Edge adj0 me nd.nextHop c ∧ Walk (Edge adj0) nd.nextHop v d ∧
      nd.distance = c + d

/-- Behind the search no node has a next hop. -/
theorem HopInv.start {st : Station} {adj adj1 : AdjList} {n : Nat} {todo : List NodeId}
    (hloop : (adj.initRoutes st).routeLoop st n todo = .ok adj1) : HopInv st adj1 adj1 := by
  refine ⟨.refl adj1, fun v nd hv => .inl ?_⟩
  have h := routeLoop_nextHop _ _ hloop v
  rw [hv, initRoutes, ExtTreeMap.getElem?_map, Option.map_map] at h
  cases hv0 : adj[v]? with
  | none => simp [hv0] at h
  | some n =>
    rw [hv0] at h
    simp only [Option.map_some, Option.some.injEq, Function.comp_apply] at h
    rw [h]
    split <;> rfl

/-- When the search is over and every node that it reached has a next hop, the routes are
correct. -/
theorem RoutesCorrect.of_hops {st : Station} {adj adj1 adj' : AdjList} {k : Nat}
    (hw : WeightsIn adj) (hk : k * Metric.ceiling.toNat < maxDistance)
    (search : SearchInv st adj [] k adj1) (inv : HopInv st adj1 adj')
    (hhops : ∀ id ∈ adj1.keys, adj1.distanceOf id < maxDistance → id ≠ st.myNodeId →
      ∃ nd, adj'[id]? = some nd ∧ nd.nextHop ≠ st.myNodeId) :
    RoutesCorrect st.myNodeId adj adj' := by
  have hset := search.settling
  have hall : ∀ a v c, Edge adj a v c → a ∈ settled adj [] ∧ Edge adj a v c :=
    fun a v c he => ⟨⟨he.source_mem, by simp⟩, he⟩
  have hpos : ∀ u v c, Edge adj u v c → 0 < c := fun u v c he => (he.weight hw).1
  have hW : ∀ u v c, Edge adj u v c → c ≤ Metric.ceiling.toNat :=
    fun u v c he => (he.weight hw).2
  have hdist : ∀ v nd, adj'[v]? = some nd → adj1.distanceOf v = nd.distance := by
    intro v nd hv
    rw [← inv.tree.distanceOf, distanceOf_of_mem hv]
  refine ⟨search.graph.trans inv.tree.sameGraph, ?_, ?_, ?_⟩
  · -- The labels are final: all nodes are settled, so all edges are relaxed.
    intro v nd hv hlt
    rw [← hdist v nd hv] at hlt ⊢
    exact hset.isDist hpos hall hW hk hlt
  · intro v nd hv hnlt
    refine ⟨?_, fun c hwalk => hnlt ?_⟩
    · rcases inv.hop v nd hv with h | ⟨h, -⟩
      · exact h
      · have hb := hset.bounded v
        rw [hdist v nd hv] at hb
        exact absurd (lt_of_le_of_ne hb h) hnlt
    · rw [← hdist v nd hv]
      refine hset.reached hall hW hk hwalk ?_
      rw [hset.source]
      decide
  · intro v nd hv hne hlt
    have hlt1 : adj1.distanceOf v < maxDistance := by rwa [hdist v nd hv]
    have hmem1 : v ∈ adj1.keys := by
      rw [ExtTreeMap.mem_keys, ← inv.tree.sameGraph.mem_iff, mem_iff_getElem?]
      exact ⟨nd, hv⟩
    obtain ⟨nd', hnd', hnz⟩ := hhops v hmem1 hlt1 hne
    rw [hv] at hnd'
    cases hnd'
    rcases inv.hop v nd hv with h | ⟨-, -, hfirst⟩
    · exact absurd h hnz
    · obtain ⟨-, c, d, he, hwalk, hsum⟩ := hfirst.split hset hne hlt1
      exact ⟨hnz, c, d, he, hwalk, by rw [← hdist v nd hv]; exact hsum⟩

section
variable {st : Station} {adj : AdjList}

/-- The search and the loop over the next hops, with what is left of their invariants. -/
structure RoutesRun (st : Station) (adj adj1 adj' : AdjList) : Prop where
  run : adj.calcRoutes st = .ok adj'
  sums : ∀ x ∈ routeSums st adj.keys.length adj.keys (adj.initRoutes st), x < 2 ^ 32
  search : SearchInv st adj [] (0 + adj.keys.length) adj1
  hops : HopInv st adj1 adj'
  reached : ∀ id ∈ adj1.keys, adj1.distanceOf id < maxDistance → id ≠ st.myNodeId →
    ∃ nd, adj'[id]? = some nd ∧ nd.nextHop ≠ st.myNodeId

/-- No path of at most 1024 links reaches `maxDistance`. -/
theorem sums_bound (hsize : adj.size ≤ 1024) :
    (0 + adj.keys.length) * Metric.ceiling.toNat < maxDistance := by
  have hceil : Metric.ceiling.toNat = 4194303 := rfl
  rw [ExtTreeMap.length_keys, hceil]
  unfold maxDistance
  omega

/-- The whole run of `calcRoutes` on a graph of at most 1024 nodes: the search ends with the
shortest distances and the computation of the next hops goes up its tree. 1024 links of the largest
weight stay below the limit of the distances, so no sum wraps. -/
theorem calcRoutes_run (hmy : st.myNodeId ∈ adj) (hsize : adj.size ≤ 1024) (hw : WeightsIn adj) :
    ∃ adj1 adj', RoutesRun st adj adj1 adj' := by
  have hkeys : (adj.initRoutes st).keys = adj.keys :=
    keys_congr (initRoutes_sameGraph st adj).mem_iff
  obtain ⟨adj1, hloop, hsums, search⟩ := SearchInv.run hw adj.keys.length adj.keys 0
    (adj.initRoutes st) rfl ExtTreeMap.nodup_keys
    (fun v hv => by rwa [ExtTreeMap.mem_keys] at hv) (sums_bound hsize) (SearchInv.start hmy)
  obtain ⟨adj', hfold, inv, -, hhops⟩ := calcNextHops_run hw search adj1.keys adj1
    (.start hloop) (fun v hv => by rwa [ExtTreeMap.mem_keys] at hv)
  refine ⟨adj1, adj', ?_, hsums, search, inv, hhops⟩
  rw [calcRoutes, if_neg (not_not.mpr hmy)]
  simp only [hkeys, hloop, except_bind_ok]
  exact hfold

/-- `calcRoutes` computes shortest routes. -/
theorem calcRoutes_correct {st : Station} {adj : AdjList} (hmy : st.myNodeId ∈ adj)
    (hsize : adj.size ≤ 1024) (hw : WeightsIn adj) :
    ∃ adj', adj.calcRoutes st = .ok adj' ∧ RoutesCorrect st.myNodeId adj adj' := by
  obtain ⟨adj1, adj', h⟩ := calcRoutes_run hmy hsize hw
  exact ⟨adj', h.run, .of_hops hw (sums_bound hsize) h.search h.hops h.reached⟩

/-- The own node has no next hop. -/
theorem HopInv.own {adj1 : AdjList} {nd : NDescr} (inv : HopInv st adj1 adj)
    (h : adj[st.myNodeId]? = some nd) : nd.nextHop = st.myNodeId := by
  rcases inv.hop st.myNodeId nd h with hown | ⟨-, hne, -⟩
  · exact hown
  · exact absurd rfl hne

/-- The routes from `me` in `adj` are those of the graph of `adj0`:

- `distance`: the distance of a node is the smallest weight of a path to it, and it is
  `maxDistance` exactly if there is no path;
- `nextHop`: the next hop of another node that can be reached is a neighbour of `me` and the
  first one on a path of the smallest weight;
- `noHop`: any other node has `me` as its next hop. -/
structure ExactRoutes (me : NodeId) (adj0 adj : AdjList) : Prop where
  distance : ∀ (d : NodeId) (nd : NDescr), adj[d]? = some nd →
    (nd.distance = maxDistance ↔ ¬ ∃ c, Walk (Edge adj0) me d c) ∧
      ((∃ c, Walk (Edge adj0) me d c) → IsDist (Edge adj0) me d nd.distance)
  nextHop : ∀ (d : NodeId) (nd : NDescr), adj[d]? = some nd → d ≠ me →
    (∃ c, Walk (Edge adj0) me d c) → ∃ c n, Edge adj0 me nd.nextHop c ∧
      Walk (Edge adj0) nd.nextHop d n ∧ IsDist (Edge adj0) me d (c + n)
  noHop : ∀ (d : NodeId) (nd : NDescr), adj[d]? = some nd →
    (d = me ∨ ¬ ∃ c, Walk (Edge adj0) me d c) → nd.nextHop = me

/-- Take a topology of at most 1024 nodes with the own node, whose link weights are those that
`calculate` can store. `calcRoutes` returns, so no assertion in it fails, and the routes it
stores are the shortest ones. The graph stays as it is, and no sum of weights is truncated. -/
theorem calcRoutes_exact (hmy : st.myNodeId ∈ adj) (hsize : adj.size ≤ 1024)
    (hw : WeightsIn adj) :
    ∃ adj', adj.calcRoutes st = .ok adj' ∧ SameGraph adj adj' ∧
      ExactRoutes st.myNodeId adj adj' ∧
      ∀ x ∈ routeSums st adj.keys.length adj.keys (adj.initRoutes st), x < 2 ^ 32 := by
  obtain ⟨adj1, adj', h⟩ := calcRoutes_run hmy hsize hw
  have hroutes := RoutesCorrect.of_hops hw (sums_bound hsize) h.search h.hops h.reached
  -- a node with a path to it has a distance below `maxDistance`
  have hfinite : ∀ (d : NodeId) (nd : NDescr), adj'[d]? = some nd →
      (nd.distance < maxDistance ↔ ∃ c, Walk (Edge adj) st.myNodeId d c) := by
    intro d nd hd
    refine ⟨fun hlt => ⟨_, (hroutes.reached d nd hd hlt).1⟩, fun hwalks => ?_⟩
    obtain ⟨c, hwalk⟩ := hwalks
    by_contra hnot
    exact (hroutes.unreached d nd hd hnot).2 c hwalk
  refine ⟨adj', h.run, hroutes.graph, ⟨fun d nd hd => ⟨?_, fun hc => ?_⟩,
    fun d nd hd hne hc => ?_, fun d nd hd hno => ?_⟩, h.sums⟩
  · rw [← hfinite d nd hd]
    have hle : nd.distance ≤ maxDistance := by
      rw [← distanceOf_of_mem hd, h.hops.tree.distanceOf]
      exact h.search.settling.bounded d
    omega
  · exact hroutes.reached d nd hd ((hfinite d nd hd).mpr hc)
  · have hlt := (hfinite d nd hd).mpr hc
    obtain ⟨-, c, n, he, hwalk, hsum⟩ := hroutes.hop d nd hd hne hlt
    exact ⟨c, n, he, hwalk, hsum ▸ hroutes.reached d nd hd hlt⟩
  · rcases hno with rfl | hno
    · exact h.hops.own hd
    · exact (hroutes.unreached d nd hd (mt (hfinite d nd hd).mp hno)).1

end

/-- A triangle of stations whose direct link is worse than the way over the third
station. -/
def triangle : AdjList :=
  let node (links : List LinkQuality) : NDescr :=
    { linklist := { links := links }, nodeValidity := 10, edgeValidity := 10, distance := 0 }
  (((∅ : AdjList).insert 1 (node [{ neighbor := 2, metricWeight := 3 },
      { neighbor := 3, metricWeight := 9 }])).insert 2
    (node [{ neighbor := 3, metricWeight := 4 }])).insert 3 (node [])

/-- The promise on the weights can be checked link by link on a concrete map. -/
theorem weightsIn_of_toList {adj : AdjList} (h : ∀ e ∈ adj.toList, ∀ l ∈ e.2.links,
    1 ≤ l.metricWeight.toNat ∧ l.metricWeight.toNat ≤ Metric.ceiling.toNat) :
    WeightsIn adj := by
  intro u l hl
  obtain ⟨nd, hu, hl⟩ := getElem?_of_mem_linksOf hl
  exact h (u, nd) (ExtTreeMap.mem_toList_iff_getElem?_eq_some.mpr hu) l hl

/-- Station 1 finds the way over station 2 to station 3. -/
theorem calcRoutes_exact_triangle :
    ∃ adj', triangle.calcRoutes (Station.hopCount 1) = .ok adj' ∧
      ExactRoutes 1 triangle adj' ∧
      ∀ x ∈ routeSums (Station.hopCount 1) triangle.keys.length triangle.keys
        (triangle.initRoutes (Station.hopCount 1)), x < 2 ^ 32 := by
  have hw : WeightsIn triangle := weightsIn_of_toList (by decide +kernel)
  have hmy : (Station.hopCount 1).myNodeId ∈ triangle := by decide +kernel
  obtain ⟨adj', hrun, -, hexact, hsums⟩ := calcRoutes_exact hmy (by decide +kernel) hw
  exact ⟨adj', hrun, hexact, hsums⟩

end Awds.Proofs
