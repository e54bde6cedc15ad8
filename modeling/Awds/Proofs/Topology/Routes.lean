import Awds.Proofs.Topology.Links

/-!
# `Awds.Proofs.Topology.Routes`: what `calcRoutes` reads and writes

`calcRoutes` writes the distance, the predecessor and the next hop of the entries and
nothing else. `calcNextHop` looks nodes up with `operator[]`, which would create a missing
node; but it only follows predecessors of reached nodes, and these are in the map
(`PrevIn`). So the graph behind the computation is the graph in front of it:
`calcRoutes_sameGraph`.

What it reads are the nodes and, of every link, the neighbour and the weight. The old
routes do not matter. `calcRoutes_congr` says so for two maps that agree on this
(`SameWeights`): the computation fails on both or gives both the same distances and next
hops.
-/

set_option autoImplicit false

namespace Awds.NDescr

/-- The entry without its routes. -/
def graph (nd : NDescr) : NDescr := { nd with nextHop := 0, prevHop := 0, distance := 0 }

/-- The entry without its next hop. -/
def tree (nd : NDescr) : NDescr := { nd with nextHop := 0 }

end Awds.NDescr

namespace Awds.Proofs

open Std (ExtTreeMap)
open Awds.Lib Awds.AdjList

/-! ### The graph is kept -/

/-- The maps differ in the routes at most. -/
def SameGraph (adj adj' : AdjList) : Prop :=
  ∀ u : NodeId, adj'[u]?.map NDescr.graph = adj[u]?.map NDescr.graph

/-- Computing nothing keeps the graph. -/
theorem SameGraph.refl (adj : AdjList) : SameGraph adj adj := fun _ => rfl

/-- Phases of the computation that keep the graph each keep it together. -/
theorem SameGraph.trans {a b c : AdjList} (h : SameGraph a b) (h' : SameGraph b c) :
    SameGraph a c := fun u => (h' u).trans (h u)

/-- A graph that is kept has the same nodes, so a node that was there in front of a phase is there
behind it. -/
theorem SameGraph.mem_iff {adj adj' : AdjList} (h : SameGraph adj adj') (u : NodeId) :
    u ∈ adj' ↔ u ∈ adj := by
  rw [mem_iff_getElem?, mem_iff_getElem?]
  have := h u
  cases h1 : adj'[u]? <;> cases h2 : adj[u]? <;> simp_all

/-- A change of one entry that leaves everything but its routes alone keeps the whole graph. All
phases of `calcRoutes` and `calcNextHop` write through such changes. -/
theorem SameGraph.modify (adj : AdjList) (id : NodeId) {f : NDescr → NDescr}
    (hf : ∀ nd, (f nd).graph = nd.graph) : SameGraph adj (adj.modify id f) := by
  intro u
  rw [getElem?_modifyAt]
  split
  · rw [Option.map_map]
    congr 1
    funext nd
    exact hf nd
  · rfl

/-- The entry of a node in a map that differs in the routes at most. -/
theorem SameGraph.entry {adj adj' : AdjList} (h : SameGraph adj adj') {u : NodeId}
    {nd : NDescr} (hu : adj'[u]? = some nd) :
    ∃ n, adj[u]? = some n ∧ n.linklist = nd.linklist ∧ n.edgeValidity = nd.edgeValidity ∧
      n.nodeValidity = nd.nodeValidity := by
  have := h u
  rw [hu] at this
  cases hn : adj[u]? with
  | none => simp [hn] at this
  | some n =>
    simp only [hn, Option.map_some, Option.some.injEq] at this
    have h1 : n.graph.linklist = nd.graph.linklist := by rw [this]
    have h2 : n.graph.edgeValidity = nd.graph.edgeValidity := by rw [this]
    have h3 : n.graph.nodeValidity = nd.graph.nodeValidity := by rw [this]
    exact ⟨n, rfl, h1, h2, h3⟩

/-- The relation goes both ways, because it is an equality at each node. -/
theorem SameGraph.symm {adj adj' : AdjList} (h : SameGraph adj adj') : SameGraph adj' adj :=
  fun u => (h u).symm

/-- The links of a node are part of the graph, so they are kept. -/
theorem SameGraph.linksOf {adj adj' : AdjList} (h : SameGraph adj adj') (u : NodeId) :
    adj'.linksOf u = adj.linksOf u := by
  unfold AdjList.linksOf
  cases hu : adj'[u]? with
  | none =>
    have : adj[u]? = none := by
      rw [← not_mem_iff_getElem?, ← h.mem_iff, not_mem_iff_getElem?]
      exact hu
    rw [this]
  | some nd =>
    obtain ⟨n, hn, hlist, -⟩ := h.entry hu
    rw [hn]
    simp only [NDescr.links, hlist]

/-- The predecessor of a reached node is in the map. -/
def PrevIn (adj : AdjList) : Prop :=
  ∀ (u : NodeId) (nd : NDescr), adj[u]? = some nd → nd.distance ≠ maxDistance → nd.prevHop ∈ adj

section
variable {st : Station}

/-- The first loop of `calcRoutes` writes distances and hops only, so the graph is kept. -/
theorem initRoutes_sameGraph (st : Station) (adj : AdjList) :
    SameGraph adj (adj.initRoutes st) := by
  intro u
  rw [initRoutes, ExtTreeMap.getElem?_map, Option.map_map]
  congr 1
  funext nd
  simp only [Function.comp_apply]
  split <;> rfl

/-- Behind the first loop the own node is the only one that is reached, and its predecessor is
itself. -/
theorem initRoutes_prevIn {adj : AdjList} (hmy : st.myNodeId ∈ adj) :
    PrevIn (adj.initRoutes st) := by
  intro u nd hu hd
  rw [(initRoutes_sameGraph st adj).mem_iff]
  rw [initRoutes, ExtTreeMap.getElem?_map, Option.map_eq_some_iff] at hu
  obtain ⟨n, -, rfl⟩ := hu
  split at hd
  · rw [if_pos ‹_›]
    exact hmy
  · exact absurd rfl hd

/-- A relaxed link keeps the graph, and its source is in the map. -/
theorem relaxLinks_frame {nearest : NodeId} : ∀ (ls : List LinkQuality) {adj adj' : AdjList},
    nearest ∈ adj → PrevIn adj → adj.relaxLinks nearest ls = .ok adj' →
      SameGraph adj adj' ∧ PrevIn adj' := by
  intro ls
  induction ls with
  -- No link is left.
  | nil =>
    intro adj adj' _ hp h
    cases h
    exact ⟨.refl adj, hp⟩
  | cons l ls ih =>
    intro adj adj' hmem hp h
    rw [relaxLinks] at h
    split at h
    · cases h
      exact ⟨.refl adj, hp⟩
    · split at h
      · exact ih hmem hp h
      · split at h
        · cases h
        · simp only at h
          split at h
          · -- The neighbour gets a smaller distance, and this node in front of it.
            set d := (adj.distanceOf nearest + l.metricWeight.toNat) % 2 ^ 32
            have hsame := SameGraph.modify adj l.neighbor
              (f := fun nd => { nd with distance := d, prevHop := nearest }) fun _ => rfl
            have hp' : PrevIn (adj.modify l.neighbor
                fun nd => { nd with distance := d, prevHop := nearest }) := by
              intro u nd hu hne
              rw [hsame.mem_iff]
              rw [getElem?_modifyAt] at hu
              split at hu
              · rw [Option.map_eq_some_iff] at hu
                obtain ⟨n, -, rfl⟩ := hu
                exact hmem
              · exact hp u nd hu hne
            obtain ⟨h1, h2⟩ := ih ((hsame.mem_iff _).mpr hmem) hp' h
            exact ⟨hsame.trans h1, h2⟩
          · exact ih hmem hp h

/-- The outer loop keeps the graph, and the predecessors that it sets are in the map. The induction
is on the fuel: one turn takes the nearest node out of the list and relaxes its links. -/
theorem routeLoop_frame : ∀ (n : Nat) (todo : List NodeId) {adj adj' : AdjList},
    (∀ u ∈ todo, u ∈ adj) → PrevIn adj → adj.routeLoop st n todo = .ok adj' →
      SameGraph adj adj' ∧ PrevIn adj' := by
  intro n
  induction n with
  | zero =>
    -- No fuel is left, so the loop ends.
    intro todo adj adj' _ hp h
    cases h
    exact ⟨.refl adj, hp⟩
  | succ n ih =>
    intro todo adj adj' hmem hp h
    rw [routeLoop] at h
    split at h
    · -- The nearest node is one of those still to do.
      rename_i nearest front hlast hfront
      split at h
      · obtain ⟨adj1, h1, h2⟩ := bind_eq_ok.mp h
        have hperm := st.sort.perm (fun a b => decide (adj.distanceOf a > adj.distanceOf b)) todo
        have hnear : nearest ∈ adj :=
          hmem _ (hperm.mem_iff.mp (List.mem_of_getLast? hlast))
        obtain ⟨hs1, hp1⟩ := relaxLinks_frame _ hnear hp h1
        -- Its links are relaxed, and the loop goes on with the rest.
        obtain ⟨hs2, hp2⟩ := ih _ (fun u hu => (hs1.mem_iff u).mpr
          (hmem u (hperm.mem_iff.mp (List.dropLast_subset _ hu)))) hp1 h2
        exact ⟨hs1.trans hs2, hp2⟩
      · cases h
    · cases h
      exact ⟨.refl adj, hp⟩

/-- The maps differ in the next hops at most. -/
def SameTree (adj adj' : AdjList) : Prop :=
  ∀ u : NodeId, adj'[u]?.map NDescr.tree = adj[u]?.map NDescr.tree

/-- Setting no next hop keeps the tree of predecessors. -/
theorem SameTree.refl (adj : AdjList) : SameTree adj adj := fun _ => rfl

/-- Changes of next hops follow each other, and each keeps the tree. -/
theorem SameTree.trans {a b c : AdjList} (h : SameTree a b) (h' : SameTree b c) :
    SameTree a c := fun u => (h' u).trans (h u)

/-- What differs in the next hops at most differs in the routes at most. -/
theorem SameTree.sameGraph {adj adj' : AdjList} (h : SameTree adj adj') :
    SameGraph adj adj' := by
  intro u
  have := congrArg (Option.map NDescr.graph) (h u)
  rw [Option.map_map, Option.map_map] at this
  exact this

/-- A next hop is no part of the tree, so setting one keeps the tree. -/
theorem SameTree.setNextHop (adj : AdjList) (id : NodeId) (f : NDescr → NodeId) :
    SameTree adj (adj.modify id fun nd => { nd with nextHop := f nd }) := by
  intro u
  rw [getElem?_modifyAt]
  split
  · rw [Option.map_map]
    rfl
  · rfl

/-- The entry of a node in a map that differs in the next hops at most. -/
theorem SameTree.entry {adj adj' : AdjList} (h : SameTree adj adj') {u : NodeId} {nd : NDescr}
    (hu : adj'[u]? = some nd) :
    ∃ n, adj[u]? = some n ∧ n.distance = nd.distance ∧ n.prevHop = nd.prevHop ∧
      n.linklist = nd.linklist := by
  have := h u
  rw [hu] at this
  cases hn : adj[u]? with
  | none => simp [hn] at this
  | some n =>
    simp only [hn, Option.map_some, Option.some.injEq] at this
    have h1 : n.tree.distance = nd.tree.distance := by rw [this]
    have h2 : n.tree.prevHop = nd.tree.prevHop := by rw [this]
    have h3 : n.tree.linklist = nd.tree.linklist := by rw [this]
    exact ⟨n, rfl, h1, h2, h3⟩

/-- The predecessors are those of before, so they are in the map still. -/
theorem SameTree.prevIn {adj adj' : AdjList} (h : SameTree adj adj') (hp : PrevIn adj) :
    PrevIn adj' := by
  intro u nd hu hd
  obtain ⟨n, hn, hdist, hprev, -⟩ := h.entry hu
  rw [h.sameGraph.mem_iff, ← hprev]
  exact hp u n hn (hdist ▸ hd)

/-- The access `adjList[id]` creates nothing if the entry is there. -/
theorem touch_of_mem {adj : AdjList} {id : NodeId} (h : id ∈ adj) : adj.touch st id = adj := by
  rw [touch, if_pos h]

/-- `calcNextHop` sets next hops and nothing else. -/
theorem calcNextHop_frame : ∀ (n : Nat) (id : NodeId) {adj adj' : AdjList},
    id ∈ adj → PrevIn adj → adj.calcNextHop st n id = .ok adj' → SameTree adj adj' := by
  intro n
  induction n with
  | zero =>
    intro id adj adj' _ _ h
    cases h
  | succ n ih =>
    intro id adj adj' hid hp h
    simp only [calcNextHop, touch_of_mem hid] at h
    split at h
    · -- The node has no entry.
      cases h
      exact .refl adj
    · rename_i d hd
      split at h
      · -- It is not reached.
        cases h
        exact .setNextHop adj id _
      · rename_i hreached
        split at h
        · cases h
          exact .refl adj
        · -- The own node is in front of it, or another node, which is asked first.
          split at h
          · cases h
            exact .setNextHop adj id _
          · have hprev : d.prevHop ∈ adj := hp id d hd hreached
            rw [touch_of_mem hprev] at h
            split at h
            · cases h
            · obtain ⟨adj1, h1, h2⟩ := bind_eq_ok.mp h
              have hs := ih _ hprev hp h1
              split at h2
              · cases h2
                exact hs
              · cases h2
                exact hs.trans (.setNextHop adj1 id _)

/-- `calcRoutes` writes the routes and nothing else. -/
theorem calcRoutes_sameGraph {adj adj' : AdjList} (h : adj.calcRoutes st = .ok adj') :
    SameGraph adj adj' := by
  rw [calcRoutes] at h
  split at h
  · cases h
  · rename_i hmy
    have hmy : st.myNodeId ∈ adj := not_not.mp hmy
    obtain ⟨adj1, hloop, hfold⟩ := bind_eq_ok.mp h
    have hinit := initRoutes_sameGraph st adj
    obtain ⟨hs, hp⟩ := routeLoop_frame _ _
      (fun u hu => by rwa [ExtTreeMap.mem_keys] at hu) (initRoutes_prevIn hmy) hloop
    have hrun : SameTree adj1 adj' ∧ PrevIn adj' := by
      refine foldlM_invariant (P := fun a => SameTree adj1 a ∧ PrevIn a) adj1.keys adj1 adj' ?_
        ⟨.refl adj1, hp⟩ hfold
      rintro a id a' hid ⟨hs, hp⟩ hstep
      have hmem : id ∈ a := by
        rw [ExtTreeMap.mem_keys] at hid
        exact (hs.sameGraph.mem_iff id).mpr hid
      have hs' := calcNextHop_frame _ id hmem hp hstep
      exact ⟨hs.trans hs', hs'.prevIn hp⟩
    exact (hinit.trans hs).trans hrun.1.sameGraph

end

/-! ### What the routes depend on -/

/-- The maps have the same nodes. -/
theorem keys_congr {a b : AdjList} (h : ∀ u : NodeId, u ∈ a ↔ u ∈ b) : a.keys = b.keys := by
  have hmap : (a.map fun _ _ => () : ExtTreeMap NodeId Unit compare) = b.map fun _ _ => () := by
    refine ExtTreeMap.ext_getElem? fun u => ?_
    rw [ExtTreeMap.getElem?_map, ExtTreeMap.getElem?_map]
    have := h u
    rw [mem_iff_getElem?, mem_iff_getElem?] at this
    cases h1 : a[u]? <;> cases h2 : b[u]? <;> simp_all
  have hkeys := congrArg ExtTreeMap.keys hmap
  rwa [ExtTreeMap.keys_map, ExtTreeMap.keys_map] at hkeys

end Awds.Proofs

namespace Awds.NDescr

/-- The part of the links that the routes depend on. -/
def weights (nd : NDescr) : List (NodeId × UInt32) :=
  nd.links.map fun l => (l.neighbor, l.metricWeight)

/-- The part of the entry that the computation of the routes depends on. The predecessor
of a node that is not reached is left over from an earlier computation. -/
def routed (nd : NDescr) : List (NodeId × UInt32) × Nat × NodeId × Option NodeId :=
  (nd.weights, nd.distance, nd.nextHop,
    if nd.distance = maxDistance then none else some nd.prevHop)

end Awds.NDescr

namespace Awds.Proofs

open Std (ExtTreeMap)
open Awds.Lib Awds.AdjList

/-- The maps have the same nodes, links and weights. -/
def SameWeights (a b : AdjList) : Prop :=
  ∀ u : NodeId, a[u]?.map NDescr.weights = b[u]?.map NDescr.weights

/-- The maps agree in the course of the computation. -/
def Agree (a b : AdjList) : Prop :=
  ∀ u : NodeId, a[u]?.map NDescr.routed = b[u]?.map NDescr.routed

/-- Two results fail alike or agree. -/
def AgreeR : Result AdjList → Result AdjList → Prop
  | .ok a, .ok b => Agree a b
  | .error e, .error e' => e = e'
  | _, _ => False

/-- Two computations agree if their first parts agree and their second parts agree on maps that
agree. It is the only rule about sequences that the proofs below need. -/
theorem AgreeR.bind {x y : Result AdjList} {f g : AdjList → Result AdjList} (h : AgreeR x y)
    (hfg : ∀ a b, Agree a b → AgreeR (f a) (g b)) : AgreeR (x >>= f) (y >>= g) := by
  cases x with
  | error e =>
    cases y with
    | error e' => exact h
    | ok b => exact h.elim
  | ok a =>
    cases y with
    | error e' => exact h.elim
    | ok b => exact hfg a b h

section
variable {a b : AdjList}

/-- The two entries of a node. -/
theorem Agree.cases (h : Agree a b) (u : NodeId) :
    (a[u]? = none ∧ b[u]? = none) ∨
    ∃ n m, a[u]? = some n ∧ b[u]? = some m ∧ n.weights = m.weights ∧
      n.distance = m.distance ∧ n.nextHop = m.nextHop ∧
      (n.distance ≠ maxDistance → n.prevHop = m.prevHop) := by
  have hu := h u
  cases hn : a[u]? with
  | none =>
    cases hm : b[u]? with
    | none => exact .inl ⟨rfl, rfl⟩
    | some m => simp [hn, hm] at hu
  | some n =>
    cases hm : b[u]? with
    | none => simp [hn, hm] at hu
    | some m =>
      simp only [hn, hm, Option.map_some, Option.some.injEq, NDescr.routed, Prod.mk.injEq] at hu
      obtain ⟨hw, hd, hx, hp⟩ := hu
      refine .inr ⟨n, m, rfl, rfl, hw, hd, hx, fun hne => ?_⟩
      rw [if_neg hne, if_neg (hd ▸ hne)] at hp
      exact Option.some.inj hp

/-- Maps that agree have the same nodes. -/
theorem Agree.mem_iff (h : Agree a b) (u : NodeId) : u ∈ a ↔ u ∈ b := by
  rw [mem_iff_getElem?, mem_iff_getElem?]
  rcases h.cases u with ⟨h1, h2⟩ | ⟨n, m, h1, h2, -⟩ <;> simp [h1, h2]

/-- Maps that agree have the same distances, which is the largest one for a node that is not there.
-/
theorem Agree.distanceOf (h : Agree a b) (u : NodeId) : a.distanceOf u = b.distanceOf u := by
  unfold AdjList.distanceOf
  rcases h.cases u with ⟨h1, h2⟩ | ⟨n, m, h1, h2, -, hd, -⟩
  · rw [h1, h2]
  · rw [h1, h2]
    exact hd

/-- Maps that agree have the same neighbours with the same weights. Whatever else a link holds, such
as its quality or its counterpart, may differ. -/
theorem Agree.linksOf (h : Agree a b) (u : NodeId) :
    (a.linksOf u).map (fun l => (l.neighbor, l.metricWeight))
      = (b.linksOf u).map fun l => (l.neighbor, l.metricWeight) := by
  unfold AdjList.linksOf
  rcases h.cases u with ⟨h1, h2⟩ | ⟨n, m, h1, h2, hw, -⟩
  · rw [h1, h2]
  · rw [h1, h2]
    exact hw

/-- A change that reads nothing but what agrees keeps the agreement. -/
theorem Agree.modify (h : Agree a b) (id : NodeId) {f g : NDescr → NDescr}
    (hfg : ∀ n m, a[id]? = some n → b[id]? = some m → (f n).routed = (g m).routed) :
    Agree (a.modify id f) (b.modify id g) := by
  intro u
  rw [getElem?_modifyAt, getElem?_modifyAt]
  by_cases hu : id = u
  · subst hu
    rcases h.cases id with ⟨h1, h2⟩ | ⟨n, m, h1, h2, -⟩
    · simp [h1, h2]
    · simp [h1, h2, hfg n m h1 h2]
  · rw [if_neg hu, if_neg hu]
    exact h u

/-- Maps with the same weights have the same nodes. -/
theorem SameWeights.mem_iff (h : SameWeights a b) (u : NodeId) : u ∈ a ↔ u ∈ b := by
  rw [mem_iff_getElem?, mem_iff_getElem?]
  have := h u
  cases h1 : a[u]? <;> cases h2 : b[u]? <;> simp_all

variable {st : Station}

/-- The first loop makes maps that agree out of maps with the same weights, since it sets the
distances and the next hops of all nodes anew. -/
theorem SameWeights.initRoutes (h : SameWeights a b) :
    Agree (a.initRoutes st) (b.initRoutes st) := by
  intro u
  rw [AdjList.initRoutes, AdjList.initRoutes, ExtTreeMap.getElem?_map, ExtTreeMap.getElem?_map,
    Option.map_map, Option.map_map]
  have hu := h u
  cases h1 : a[u]? with
  | none =>
    cases h2 : b[u]? with
    | none => rfl
    | some m => simp [h1, h2] at hu
  | some n =>
    cases h2 : b[u]? with
    | none => simp [h1, h2] at hu
    | some m =>
      simp only [h1, h2, Option.map_some, Option.some.injEq] at hu
      have hw : n.weights = m.weights := hu
      simp only [NDescr.weights, NDescr.links] at hw
      by_cases hmy : u = st.myNodeId <;>
        simp [NDescr.routed, NDescr.weights, NDescr.links, hmy, hw]

/-- The inner loop reads the neighbour and the weight of a link, and distances, so it does the same
for two vectors of links with the same neighbours and weights. The induction is on the vector. -/
theorem Agree.relaxLinks (nearest : NodeId) : ∀ (ls rs : List LinkQuality) {a b : AdjList},
    Agree a b → ls.map (fun l => (l.neighbor, l.metricWeight))
      = rs.map (fun l => (l.neighbor, l.metricWeight)) →
    AgreeR (a.relaxLinks nearest ls) (b.relaxLinks nearest rs) := by
  intro ls
  induction ls with
  | nil =>
    intro rs a b h hlr
    cases rs with
    | nil => exact h
    | cons r rs => simp at hlr
  | cons l ls ih =>
    intro rs a b h hlr
    cases rs with
    | nil => simp at hlr
    | cons r rs =>
      simp only [List.map_cons, List.cons.injEq, Prod.mk.injEq] at hlr
      obtain ⟨⟨hn, hw⟩, hlr⟩ := hlr
      rw [AdjList.relaxLinks, AdjList.relaxLinks, h.distanceOf nearest, hn, hw]
      split
      · exact h
      · rcases h.cases r.neighbor with ⟨h1, h2⟩ | ⟨n, m, h1, h2, hweights, hd, hnext, -⟩
        · rw [h1, h2]
          exact ih rs h hlr
        · rw [h1, h2]
          -- Both runs compare the same sum with the same distance.
          simp only [hd]
          split
          · rfl
          · split
            · refine ih rs (h.modify r.neighbor fun n' m' hn' hm' => ?_) hlr
              rw [h1] at hn'
              rw [h2] at hm'
              cases hn'
              cases hm'
              simp only [NDescr.weights, NDescr.links] at hweights
              simp [NDescr.routed, NDescr.weights, NDescr.links, hweights, hnext]
            · exact ih rs h hlr

/-- The outer loop takes the same nearest node in both maps, because the list is sorted by the
distances. The induction is on the fuel. -/
theorem Agree.routeLoop : ∀ (n : Nat) (todo : List NodeId) {a b : AdjList}, Agree a b →
    AgreeR (a.routeLoop st n todo) (b.routeLoop st n todo) := by
  intro n
  induction n with
  | zero => exact fun todo a b h => h
  | succ n ih =>
    intro todo a b h
    have hcmp : (fun x y => decide (a.distanceOf x > a.distanceOf y))
        = fun x y => decide (b.distanceOf x > b.distanceOf y) := by
      funext x y
      rw [h.distanceOf x, h.distanceOf y]
    rw [AdjList.routeLoop, AdjList.routeLoop, hcmp]
    split
    · rename_i nearest front _ _
      rw [h.distanceOf nearest, h.distanceOf front]
      split
      · exact (Agree.relaxLinks nearest _ _ h (h.linksOf nearest)).bind fun a b h => ih _ h
      · rfl
    · exact h

/-- The access creates the same default entry in both maps, or none. -/
theorem Agree.touch (h : Agree a b) (id : NodeId) :
    Agree (a.touch st id) (b.touch st id) := by
  rw [AdjList.touch, AdjList.touch]
  by_cases hid : id ∈ a
  · rw [if_pos hid, if_pos ((h.mem_iff id).mp hid)]
    exact h
  · rw [if_neg hid, if_neg fun hb => hid ((h.mem_iff id).mpr hb)]
    intro u
    rw [getElem?_insertAt, getElem?_insertAt]
    split
    · rfl
    · exact h u

/-- The same next hop is set in both maps. -/
theorem Agree.setNextHop (h : Agree a b) (id x : NodeId) :
    Agree (a.modify id fun nd => { nd with nextHop := x })
      (b.modify id fun nd => { nd with nextHop := x }) := by
  refine h.modify id fun n m hn hm => ?_
  have := h id
  rw [hn, hm, Option.map_some, Option.map_some, Option.some.injEq, NDescr.routed,
    NDescr.routed, Prod.mk.injEq, Prod.mk.injEq, Prod.mk.injEq] at this
  obtain ⟨hw, hd, -, hp⟩ := this
  simp only [NDescr.weights, NDescr.links] at hw
  simp only [NDescr.routed, NDescr.weights, NDescr.links, hw, hd] at hp ⊢
  rw [hp]

/-- The recursion follows the predecessors, which agree, so it takes the same branch in both maps at
each node. The induction is on the fuel. -/
theorem Agree.calcNextHop : ∀ (n : Nat) (id : NodeId) {a b : AdjList}, Agree a b →
    AgreeR (a.calcNextHop st n id) (b.calcNextHop st n id) := by
  intro n
  induction n with
  | zero => exact fun id a b h => rfl
  | succ n ih =>
    intro id a b h
    -- Looking at the node gives it an entry in both.
    have ht : Agree (a.touch st id) (b.touch st id) := h.touch id
    simp only [AdjList.calcNextHop]
    set a1 := a.touch st id
    set b1 := b.touch st id
    rcases ht.cases id with ⟨h1, h2⟩ | ⟨d, e, h1, h2, -, hd, hx, hp⟩
    · -- It has no entry in either.
      rw [h1, h2]
      exact ht
    · rw [h1, h2]
      simp only [← hd, ← hx]
      split
      · exact ht.setNextHop id st.myNodeId
      · rename_i hreached
        rw [← hp hreached]
        split
        · exact ht
        · split
          · exact ht.setNextHop id id
          · -- The node in front of it is asked in both.
            have ht' : Agree (a1.touch st d.prevHop) (b1.touch st d.prevHop) := ht.touch d.prevHop
            rw [ht'.distanceOf d.prevHop]
            split
            · rfl
            · refine (ih d.prevHop ht').bind fun a b h => ?_
              rcases h.cases d.prevHop with ⟨h1, h2⟩ | ⟨p, q, h1, h2, -, -, hpq, -⟩
              · rw [h1, h2]
                exact h
              · rw [h1, h2]
                simp only [hpq]
                exact h.setNextHop id q.nextHop

/-- Maps that agree have the same keys in the same order, so `updateTopology` visits the nodes in
the same order. -/
theorem Agree.keys (h : Agree a b) : a.keys = b.keys := keys_congr h.mem_iff

/-- Maps that agree have the same number of nodes, which bounds the recursion. -/
theorem Agree.size (h : Agree a b) : a.size = b.size := by
  rw [← ExtTreeMap.length_keys, ← ExtTreeMap.length_keys, h.keys]

/-- The routes are a function of the nodes, the links and their weights. -/
theorem calcRoutes_congr (st : Station) (h : SameWeights a b) :
    AgreeR (a.calcRoutes st) (b.calcRoutes st) := by
  have hinit : Agree (a.initRoutes st) (b.initRoutes st) := h.initRoutes
  rw [calcRoutes, calcRoutes]
  by_cases hmy : st.myNodeId ∈ a
  · rw [if_neg (not_not.mpr hmy), if_neg (not_not.mpr ((h.mem_iff _).mp hmy))]
    simp only [hinit.keys]
    refine (Agree.routeLoop _ _ hinit).bind fun a1 b1 h1 => ?_
    simp only [h1.keys]
    have hfold : ∀ (ks : List NodeId) {a b : AdjList}, Agree a b →
        AgreeR (ks.foldlM (fun (adj : AdjList) id => adj.calcNextHop st (adj.size + 1) id) a)
          (ks.foldlM (fun (adj : AdjList) id => adj.calcNextHop st (adj.size + 1) id) b) := by
      intro ks
      induction ks with
      | nil => exact fun h => h
      | cons k ks ih =>
        intro a b h
        rw [List.foldlM_cons, List.foldlM_cons, h.size]
        exact (Agree.calcNextHop _ k h).bind fun a b h => ih h
    exact hfold _ h1
  · rw [if_pos hmy, if_pos fun hb => hmy ((h.mem_iff _).mpr hb)]
    rfl

end

/-! ### Next hops are neighbours -/

section
variable {st : Station}

/-- A node other than the own one is reached over a link of its predecessor, and a next hop
other than the own node is a neighbour of the own node. -/
structure Linked (st : Station) (adj : AdjList) : Prop where
  prevHop : ∀ (u : NodeId) (nd : NDescr), adj[u]? = some nd → nd.distance ≠ maxDistance →
    u = st.myNodeId ∨ ∃ l ∈ adj.linksOf nd.prevHop, l.neighbor = u
  nextHop : ∀ (u : NodeId) (nd : NDescr), adj[u]? = some nd → nd.nextHop ≠ st.myNodeId →
    ∃ l ∈ adj.linksOf st.myNodeId, l.neighbor = nd.nextHop

/-- Behind the first loop no node but the own one is reached, and no node has another next hop than
the own node. -/
theorem linked_initRoutes (adj : AdjList) : Linked st (adj.initRoutes st) where
  prevHop := by
    intro u nd hu hd
    rw [initRoutes, ExtTreeMap.getElem?_map, Option.map_eq_some_iff] at hu
    obtain ⟨n, -, rfl⟩ := hu
    split at hd
    · exact .inl ‹_›
    · exact absurd rfl hd
  nextHop := by
    intro u nd hu hne
    rw [initRoutes, ExtTreeMap.getElem?_map, Option.map_eq_some_iff] at hu
    obtain ⟨n, -, rfl⟩ := hu
    split at hne <;> exact absurd rfl hne

/-- Changing one entry keeps the links, if the new entry is linked. -/
theorem Linked.modify {adj : AdjList} (h : Linked st adj) (id : NodeId) {f : NDescr → NDescr}
    (hf : ∀ nd, (f nd).graph = nd.graph)
    (hprev : ∀ n, adj[id]? = some n → (f n).distance ≠ maxDistance →
      id = st.myNodeId ∨ ∃ l ∈ adj.linksOf (f n).prevHop, l.neighbor = id)
    (hnext : ∀ n, adj[id]? = some n → (f n).nextHop ≠ st.myNodeId →
      ∃ l ∈ adj.linksOf st.myNodeId, l.neighbor = (f n).nextHop) :
    Linked st (adj.modify id f) := by
  have hlinks := (SameGraph.modify adj id hf).linksOf
  -- An entry behind the change is the changed one, or an old one.
  have hentry : ∀ (u : NodeId) (nd : NDescr), (adj.modify id f)[u]? = some nd →
      (∃ n, u = id ∧ adj[id]? = some n ∧ nd = f n) ∨ adj[u]? = some nd := by
    intro u nd hu
    rw [getElem?_modifyAt] at hu
    split at hu
    · rename_i hid
      subst hid
      obtain ⟨n, hn, rfl⟩ := Option.map_eq_some_iff.mp hu
      exact .inl ⟨n, rfl, hn, rfl⟩
    · exact .inr hu
  refine ⟨fun u nd hu hd => ?_, fun u nd hu hne => ?_⟩
  · rw [hlinks]
    rcases hentry u nd hu with ⟨n, rfl, hn, rfl⟩ | hu
    · exact hprev n hn hd
    · exact h.prevHop u nd hu hd
  · rw [hlinks]
    rcases hentry u nd hu with ⟨n, rfl, hn, rfl⟩ | hu
    · exact hnext n hn hne
    · exact h.nextHop u nd hu hne

/-- The inner loop makes `nearest` the predecessor of neighbours of `nearest` only, and leaves the
next hops alone. -/
theorem relaxLinks_linked {nearest : NodeId} : ∀ (ls : List LinkQuality) {adj adj' : AdjList},
    (∀ l ∈ ls, l ∈ adj.linksOf nearest) → Linked st adj →
      adj.relaxLinks nearest ls = .ok adj' → Linked st adj' := by
  intro ls
  induction ls with
  -- No link is left.
  | nil =>
    intro adj adj' _ hl h
    cases h
    exact hl
  | cons l ls ih =>
    intro adj adj' hsub hl h
    have hsub' : ∀ r ∈ ls, r ∈ adj.linksOf nearest := fun r hr => hsub r (List.mem_cons_of_mem _ hr)
    rw [relaxLinks] at h
    split at h
    · cases h
      exact hl
    · split at h
      · exact ih hsub' hl h
      · split at h
        · cases h
        · simp only at h
          split at h
          · -- The neighbour gets this node in front of it, and there is a link between the two.
            set d := (adj.distanceOf nearest + l.metricWeight.toNat) % 2 ^ 32
            have hsame := SameGraph.modify adj l.neighbor
              (f := fun nd => { nd with distance := d, prevHop := nearest }) fun _ => rfl
            refine ih (fun r hr => by rw [hsame.linksOf]; exact hsub' r hr) ?_ h
            refine hl.modify _ (fun _ => rfl) (fun n _ _ => ?_) (fun n hn hne => ?_)
            · exact .inr ⟨l, hsub l List.mem_cons_self, rfl⟩
            · exact hl.nextHop _ n hn hne
          · exact ih hsub' hl h

/-- The outer loop relaxes the links of the node that it takes, and those are links of this node.
The induction is on the fuel. -/
theorem routeLoop_linked : ∀ (n : Nat) (todo : List NodeId) {adj adj' : AdjList},
    Linked st adj → adj.routeLoop st n todo = .ok adj' → Linked st adj' := by
  intro n
  induction n with
  | zero =>
    intro todo adj adj' hl h
    cases h
    exact hl
  | succ n ih =>
    intro todo adj adj' hl h
    rw [routeLoop] at h
    split at h
    · split at h
      · obtain ⟨adj1, h1, h2⟩ := bind_eq_ok.mp h
        exact ih _ (relaxLinks_linked _ (fun _ hr => hr) hl h1) h2
      · cases h
    · cases h
      exact hl

/-- A next hop that is a neighbour of the own node may be set at any entry. -/
theorem Linked.setNextHop {adj : AdjList} (h : Linked st adj) (id x : NodeId)
    (hx : x ≠ st.myNodeId → ∃ l ∈ adj.linksOf st.myNodeId, l.neighbor = x) :
    Linked st (adj.modify id fun nd => { nd with nextHop := x }) :=
  h.modify id (fun _ => rfl) (fun n hn hd => h.prevHop id n hn hd) fun _ _ hne => hx hne

/-- The recursion sets the next hop of a node to the node itself if its predecessor is the own node,
which gives the link that is needed. Otherwise it sets the next hop of the predecessor, for which
the induction on the fuel has the link. -/
theorem calcNextHop_linked : ∀ (n : Nat) (id : NodeId) {adj adj' : AdjList},
    id ∈ adj → PrevIn adj → Linked st adj → adj.calcNextHop st n id = .ok adj' →
      Linked st adj' := by
  intro n
  induction n with
  | zero =>
    intro id adj adj' _ _ _ h
    cases h
  | succ n ih =>
    intro id adj adj' hid hp hl h
    simp only [calcNextHop, touch_of_mem hid] at h
    split at h
    · -- Without an entry nothing changes.
      cases h
      exact hl
    · rename_i d hd
      split at h
      · cases h
        exact hl.setNextHop id _ fun hne => absurd rfl hne
      · rename_i hreached
        split at h
        · cases h
          exact hl
        · split at h
          · -- The predecessor is the own node, so there is a link from it to `id`.
            rename_i hprev
            cases h
            refine hl.setNextHop id id fun hne => ?_
            rcases hl.prevHop id d hd hreached with hmy | hlink
            · exact absurd hmy hne
            · rwa [hprev] at hlink
          · -- It has the same next hop as the node in front of it.
            have hprev : d.prevHop ∈ adj := hp id d hd hreached
            rw [touch_of_mem hprev] at h
            split at h
            · cases h
            · obtain ⟨adj1, h1, h2⟩ := bind_eq_ok.mp h
              have hl1 := ih _ hprev hp hl h1
              split at h2
              · cases h2
                exact hl1
              · rename_i q hq
                cases h2
                exact hl1.setNextHop id _ fun hne => hl1.nextHop _ q hq hne

/-- A next hop that `calcRoutes` computes is a neighbour of the own node. -/
theorem calcRoutes_linked {adj adj' : AdjList} (h : adj.calcRoutes st = .ok adj') :
    Linked st adj' := by
  rw [calcRoutes] at h
  split at h
  · cases h
  · rename_i hmy
    obtain ⟨adj1, hloop, hfold⟩ := bind_eq_ok.mp h
    obtain ⟨-, hp⟩ := routeLoop_frame _ _
      (fun u hu => by rwa [ExtTreeMap.mem_keys] at hu) (initRoutes_prevIn (not_not.mp hmy)) hloop
    have hl := routeLoop_linked _ _ (linked_initRoutes adj) hloop
    have hrun : (SameTree adj1 adj' ∧ PrevIn adj') ∧ Linked st adj' := by
      refine foldlM_invariant (P := fun a => (SameTree adj1 a ∧ PrevIn a) ∧ Linked st a)
        adj1.keys adj1 adj' ?_ ⟨⟨.refl adj1, hp⟩, hl⟩ hfold
      rintro a id a' hid ⟨⟨hs, hp⟩, hl⟩ hstep
      have hmem : id ∈ a := by
        rw [ExtTreeMap.mem_keys] at hid
        exact (hs.sameGraph.mem_iff id).mpr hid
      have hs' := calcNextHop_frame _ id hmem hp hstep
      exact ⟨⟨hs.trans hs', hs'.prevIn hp⟩, calcNextHop_linked _ id hmem hp hl hstep⟩
    exact hrun.2

end

end Awds.Proofs
