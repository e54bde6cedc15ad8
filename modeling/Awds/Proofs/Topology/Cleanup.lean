import Awds.Proofs.Topology.Merge

/-!
# `Awds.Proofs.Topology.Cleanup`: the effect of `removeOldNodes`

The pass over the map drops the links of a node when its `edgeValidity` has passed and the
node when its `nodeValidity` has. Before the links go, `remove_reference` clears the
pointers that other nodes hold to them. This follows a pointer into another vector, so it
needs that the pointers resolve: `Consistent` says that the counterpart of every link is
what `findLinkQuality` finds.

`removeReferences_run` is the run of the inner loop, `visit_run` one turn of the pass and
`removeOldNodes_run` the whole pass. The pass never fails on a consistent map, and the
entry of every node behind it is a function of the map in front of it.
-/

set_option autoImplicit false

namespace Awds.NDescr

/-- The entry without its links. -/
def clear (nd : NDescr) : NDescr := { nd with linklist := { nd.linklist with links := [] } }

/-- `clear` throws the neighbours away, so it does not matter what was done to them before. -/
@[simp] theorem clear_mapLinks (nd : NDescr) (f : LinkQuality → LinkQuality) :
    (nd.mapLinks f).clear = nd.clear := rfl

/-- `mapLink` on an entry without neighbours changes nothing. -/
@[simp] theorem mapLink_clear (nd : NDescr) (id : NodeId) (f : LinkQuality → LinkQuality) :
    nd.clear.mapLink id f = nd.clear := rfl

end Awds.NDescr

namespace Awds.Proofs

open Std (ExtTreeMap)
open Awds.Lib Awds.AdjList Awds.RTopology

/-- What every part of the topology keeps: the link vectors ascend, the counterpart of a
link is the reverse link that is stored now, and a node does not expire before its
links. -/
structure Consistent (adj : AdjList) : Prop where
  ascending : AllAscending adj
  counterpart : ∀ (u : NodeId) (nd : NDescr), adj[u]? = some nd →
    ∀ l ∈ nd.links, l.counterpart = adj.findLink l.neighbor u
  validity : ∀ (u : NodeId) (nd : NDescr), adj[u]? = some nd → nd.edgeValidity ≤ nd.nodeValidity

/-! ### Maps with the same links -/

/-- Looking up after `map` gives the mapped entry. -/
@[simp] theorem getElem?_mapEntries (adj : AdjList) (f : NodeId → NDescr → NDescr) (id : NodeId) :
    ((adj.map f : AdjList))[id]? = adj[id]?.map (f id) := by
  rw [ExtTreeMap.getElem?_map]

/-- `findLink` only looks at the neighbours and the buffer of a vector. -/
theorem findLink_map_mapLinks {adj : AdjList} {v : NodeId} {nd : NDescr} {adj' : AdjList}
    {f : LinkQuality → LinkQuality} (hf : ∀ l, (f l).neighbor = l.neighbor)
    (h : adj[v]? = some nd) {nd' : NDescr} (h' : adj'[v]? = some nd')
    (hnd : nd'.linklist = (nd.mapLinks f).linklist) (id : NodeId) :
    adj'.findLink v id = adj.findLink v id := by
  have hq : nd'.findLinkQuality id = nd.findLinkQuality id := by
    rw [← NDescr.findLinkQuality_mapLinks hf nd id]
    simp only [NDescr.findLinkQuality, NDescr.links, hnd]
  simp only [findLink, h, h', hq, hnd, NDescr.buf_mapLinks]

/-- In the vector of a cleared node no search finds anything. -/
theorem findLink_of_clear {adj : AdjList} {v : NodeId} {nd : NDescr} (h : adj[v]? = some nd)
    (hnd : nd.links = []) (id : NodeId) : adj.findLink v id = none := by
  simp [findLink, h, NDescr.findLinkQuality, hnd]

/-- A search that finds nothing in an ascending vector shows that no neighbour has this identifier.
-/
theorem no_link_of_findLink_eq_none {adj : AdjList} (h : AllAscending adj) {v id : NodeId}
    {nd : NDescr} (hv : adj[v]? = some nd) (hf : adj.findLink v id = none) :
    ∀ l ∈ nd.links, l.neighbor ≠ id := by
  simp only [findLink, hv, Option.map_eq_none_iff] at hf
  exact (findLinkQuality_eq_none_iff (h v nd hv)).mp hf

/-- The pointer that `findLink` returns refers to the link it was asked for. -/
theorem findLink_eq_some {adj : AdjList} (h : AllAscending adj) {v id : NodeId} {q : LinkPtr}
    (hf : adj.findLink v id = some q) :
    ∃ nd r, adj[v]? = some nd ∧ nd.links[q.idx]? = some r ∧ r.neighbor = id ∧
      q = ⟨v, nd.linklist.buf, q.idx⟩ := by
  unfold findLink at hf
  cases hv : adj[v]? with
  | none => simp [hv] at hf
  | some nd =>
    simp only [hv, Option.map_eq_some_iff] at hf
    obtain ⟨j, hj, rfl⟩ := hf
    obtain ⟨r, hr, hrid⟩ := (findLinkQuality_eq_some_iff (h v nd hv)).mp hj
    exact ⟨nd, r, rfl, hr, hrid, rfl⟩

/-- In a consistent map a link without a reverse link has no counterpart. -/
theorem Consistent.mapLink_disconnect {adj : AdjList} (h : Consistent adj) {u : NodeId}
    {nd : NDescr} (hu : adj[u]? = some nd) {v : NodeId} (hv : adj.findLink v u = none) :
    nd.mapLink v disconnect = nd := by
  have : ∀ l ∈ nd.links, (if l.neighbor = v then disconnect l else l) = l := by
    intro l hl
    split
    · rename_i hlv
      have hcp := h.counterpart u nd hu l hl
      rw [hlv, hv] at hcp
      rw [disconnect, ← hcp]
    · rfl
  exact NDescr.mapLinks_eq_self this

/-! ### Dropping the links of a node -/

/-- The map without the links of `id`. -/
def clearLinks (adj : AdjList) (id : NodeId) : AdjList :=
  adj.map fun u nd => if u = id then nd.clear else nd.mapLink id disconnect

/-- The map behind the first `k` links of `id`, whose entry was `nd`. -/
structure DropInv (adj : AdjList) (id : NodeId) (nd : NDescr) (k : Nat) (adj' : AdjList) :
    Prop where
  own : ∃ nd', adj'[id]? = some nd' ∧ nd'.linklist.buf = nd.linklist.buf ∧
    nd'.clear = nd.clear ∧ ∀ i, k ≤ i → nd'.links[i]? = nd.links[i]?
  other : ∀ u, u ≠ id → adj'[u]? = adj[u]?.map fun n =>
    if u ∈ (nd.links.take k).map LinkQuality.neighbor then n.mapLink id disconnect else n

/-- The invariant of the drop loop before its first pass, when no neighbour has been dropped. -/
theorem DropInv.start {adj : AdjList} {id : NodeId} {nd : NDescr} (h : adj[id]? = some nd) :
    DropInv adj id nd 0 adj where
  own := ⟨nd, h, rfl, rfl, fun _ _ => rfl⟩
  other := by simp

section
variable {adj adj' : AdjList} {id : NodeId} {nd : NDescr} {k : Nat}

/-- Writing to the link `k` of `id` leaves the links behind it alone. -/
theorem own_write (f : LinkQuality → LinkQuality) (buf : Nat)
    (h : ∃ nd', adj'[id]? = some nd' ∧ nd'.linklist.buf = nd.linklist.buf ∧
      nd'.clear = nd.clear ∧ ∀ i, k ≤ i → nd'.links[i]? = nd.links[i]?) :
    ∃ nd', (write adj' ⟨id, buf, k⟩ f)[id]? = some nd' ∧
      nd'.linklist.buf = nd.linklist.buf ∧ nd'.clear = nd.clear ∧
      ∀ i, k + 1 ≤ i → nd'.links[i]? = nd.links[i]? := by
  obtain ⟨nd', hid, hbuf, hclear, hlinks⟩ := h
  refine ⟨nd'.modifyLink k f, ?_, hbuf, hclear, fun i hi => ?_⟩
  · simp [write, hid]
  · rw [NDescr.links_modifyLink, List.getElem?_modify_ne _ _ (by omega)]
    exact hlinks i (by omega)

/-- The link of `id` that the loop is at. -/
theorem DropInv.link (inv : DropInv adj id nd k adj') {l : LinkQuality}
    (hl : nd.links[k]? = some l) : adj'.link? ⟨id, nd.linklist.buf, k⟩ = some l := by
  obtain ⟨nd', hnd', hbuf, -, hlinks⟩ := inv.own
  exact link?_eq_some_iff.mpr ⟨nd', hnd', hbuf, by rw [hlinks k le_rfl, hl]⟩

/-- The turn for the link `l` concerns no node but `id` and the neighbour. -/
theorem DropInv.elsewhere (inv : DropInv adj id nd k adj') {l : LinkQuality}
    (hl : nd.links[k]? = some l) {u : NodeId} (hu : u ≠ id) (hul : u ≠ l.neighbor) :
    adj'[u]? = adj[u]?.map fun n =>
      if u ∈ (nd.links.take (k + 1)).map LinkQuality.neighbor then n.mapLink id disconnect
      else n := by
  rw [inv.other u hu, List.take_add_one, hl]
  simp only [Option.toList_some, List.map_append, List.map_cons, List.map_nil, List.mem_append,
    List.mem_singleton, hul, or_false]

/-- No earlier link of `id` has the same neighbour, so that node is as it was. -/
theorem DropInv.neighbor_entry (h : Consistent adj) (hid : adj[id]? = some nd)
    (inv : DropInv adj id nd k adj') {l : LinkQuality} (hl : nd.links[k]? = some l)
    (hself : l.neighbor ≠ id) : adj'[l.neighbor]? = adj[l.neighbor]? := by
  have hnew : l.neighbor ∉ (nd.links.take k).map LinkQuality.neighbor := by
    intro hmem
    obtain ⟨r, hr, hrl⟩ := List.mem_map.mp hmem
    have hsub : (nd.links.take k ++ [l]).Sublist nd.links := by
      have htake := List.take_sublist (k + 1) nd.links
      rwa [List.take_add_one, hl] at htake
    have hlt := (List.pairwise_append.mp ((h.ascending id nd hid).sublist hsub)).2.2 r hr l
      (by simp)
    exact (ne_of_lt hlt) hrl
  rw [inv.other _ hself]
  simp only [if_neg hnew, Option.map_id']

/-- A link without a reverse link: nothing is to be done. -/
theorem DropInv.skip (h : Consistent adj) (inv : DropInv adj id nd k adj') {l : LinkQuality}
    (hl : nd.links[k]? = some l) (hnone : adj.findLink l.neighbor id = none) :
    DropInv adj id nd (k + 1) adj' where
  own := by
    obtain ⟨nd', h1, h2, h3, h4⟩ := inv.own
    exact ⟨nd', h1, h2, h3, fun i hi => h4 i (by omega)⟩
  other := by
    intro u hu
    by_cases hul : u = l.neighbor
    · subst hul
      rw [inv.other _ hu]
      cases hn : adj[l.neighbor]? with
      | none => rfl
      | some n =>
        have hno := no_link_of_findLink_eq_none h.ascending hn hnone
        simp only [Option.map_some, NDescr.mapLink_of_not_mem hno, ite_self]
    · exact inv.elsewhere hl hu hul

/-- A link of `id` to itself is its own reverse link. Its counterpart is reset twice. -/
theorem DropInv.self (inv : DropInv adj id nd k adj') {l : LinkQuality}
    (hl : nd.links[k]? = some l) (hself : l.neighbor = id) (f : LinkQuality → LinkQuality) :
    DropInv adj id nd (k + 1) (write adj' ⟨id, nd.linklist.buf, k⟩ f) where
  own := own_write _ _ inv.own
  other := by
    intro u hu
    rw [write, getElem?_modifyAt, if_neg (Ne.symm hu)]
    exact inv.elsewhere hl hu (hself ▸ hu)

/-- A link with a reverse link `q` in another node: both counterparts are reset. -/
theorem DropInv.pair (h : Consistent adj) (hid : adj[id]? = some nd)
    (inv : DropInv adj id nd k adj') {l : LinkQuality} (hl : nd.links[k]? = some l)
    (hself : l.neighbor ≠ id) {n : NDescr} {r : LinkQuality} {i : Nat}
    (hn : adj[l.neighbor]? = some n) (hr : n.links[i]? = some r) (hrid : r.neighbor = id) :
    DropInv adj id nd (k + 1)
      (write (write adj' ⟨l.neighbor, n.linklist.buf, i⟩ disconnect)
        ⟨id, nd.linklist.buf, k⟩ disconnect) := by
  have hn' : adj'[l.neighbor]? = some n := (inv.neighbor_entry h hid hl hself).trans hn
  have hwq : write adj' ⟨l.neighbor, n.linklist.buf, i⟩ disconnect
      = adj'.modify l.neighbor fun n => n.mapLink id disconnect :=
    write_eq_modify_mapLink hn' (h.ascending _ _ hn) hr hrid _ _
  rw [hwq]
  refine ⟨own_write _ _ ?_, fun u hu => ?_⟩
  · rw [getElem?_modifyAt, if_neg hself]
    exact inv.own
  · rw [write, getElem?_modifyAt, if_neg (Ne.symm hu), getElem?_modifyAt]
    by_cases hul : u = l.neighbor
    · subst hul
      rw [if_pos rfl, hn', hn, List.take_add_one, hl]
      simp
    · rw [if_neg (Ne.symm hul)]
      exact inv.elsewhere hl hu hul

/-- One turn of the loop over the links of `id`. -/
theorem removeReference_run (h : Consistent adj) (hid : adj[id]? = some nd)
    (hk : k < nd.links.length) (inv : DropInv adj id nd k adj') :
    ∃ adj'', adj'.removeReference ⟨id, nd.linklist.buf, k⟩ = .ok adj'' ∧
      DropInv adj id nd (k + 1) adj'' := by
  obtain ⟨l, hl⟩ : ∃ l, nd.links[k]? = some l := ⟨_, List.getElem?_eq_getElem hk⟩
  have hasc := h.ascending id nd hid
  have hthis := inv.link hl
  have hcp := h.counterpart id nd hid l (List.mem_of_getElem? hl)
  rw [removeReference, deref_of_link? hthis, except_bind_ok]
  -- The link has no counterpart, and then nobody refers to it.
  cases hq : l.counterpart with
  | none =>
    rw [hq] at hcp
    exact ⟨adj', rfl, inv.skip h hl hcp.symm⟩
  | some q =>
    rw [hq] at hcp
    obtain ⟨n, r, hn, hr, hrid, hqeq⟩ := findLink_eq_some h.ascending hcp.symm
    -- A link of a node to itself is its own counterpart.
    by_cases hself : l.neighbor = id
    · refine ⟨_, ?_, inv.self hl hself (disconnect ∘ disconnect)⟩
      rw [hself, hid] at hn
      cases hn
      have hidx : q.idx = k := by
        rw [← findIdx_of_ascending hasc hr, ← findIdx_of_ascending hasc hl, hrid, hself]
      have hqthis : q = ⟨id, nd.linklist.buf, k⟩ := by rw [hqeq, hself, hidx]
      have h1 := link?_write_self hthis fun l => { l with counterpart := none }
      simp only [hqthis, modifyLink_of_link? hthis, except_bind_ok, modifyLink_of_link? h1,
        write_write]
      rfl
    · -- Both ends are disconnected, and they lie at different places.
      have hq' : adj'.link? q = some r := by
        rw [hqeq]
        exact link?_eq_some_iff.mpr ⟨n, (inv.neighbor_entry h hid hl hself).trans hn, rfl, hr⟩
      have hne : ¬ SamePlace q ⟨id, nd.linklist.buf, k⟩ := by
        rw [hqeq]
        exact fun hp => hself hp.1
      have h1 := (link?_write_of_ne hne fun l => { l with counterpart := none }).trans hthis
      refine ⟨_, ?_, inv.pair h hid hl hself hn hr hrid⟩
      simp only [modifyLink_of_link? hq', except_bind_ok, modifyLink_of_link? h1]
      rw [hqeq]
      rfl

/-- The loop over the first `k` links of `id`. -/
theorem removeReferences_run (h : Consistent adj) (hid : adj[id]? = some nd) :
    ∀ k, k ≤ nd.links.length →
      ∃ adj', (List.range k).foldlM
          (fun (adj : AdjList) i => adj.removeReference ⟨id, nd.linklist.buf, i⟩) adj = .ok adj' ∧
        DropInv adj id nd k adj' := by
  intro k
  induction k with
  | zero => exact fun _ => ⟨adj, rfl, DropInv.start hid⟩
  | succ k ih =>
    intro hk
    obtain ⟨adj', hrun, inv⟩ := ih (by omega)
    obtain ⟨adj'', hstep, inv'⟩ := removeReference_run h hid (by omega) inv
    refine ⟨adj'', ?_, inv'⟩
    rw [List.range_succ, List.foldlM_append, hrun, except_bind_ok, List.foldlM_cons, hstep]
    rfl

/-- Behind the loop over all links of `id`, its vector is cleared. -/
theorem DropInv.cleared (h : Consistent adj) (hid : adj[id]? = some nd)
    (inv : DropInv adj id nd nd.links.length adj') :
    adj'.modify id NDescr.clear = clearLinks adj id := by
  refine ExtTreeMap.ext_getElem? fun u => ?_
  unfold clearLinks
  rw [getElem?_modifyAt, getElem?_mapEntries]
  by_cases hu : id = u
  · subst hu
    obtain ⟨nd', hnd', -, hclear, -⟩ := inv.own
    simp [hnd', hid, hclear]
  · rw [if_neg hu, inv.other u (Ne.symm hu), List.take_length]
    simp only [if_neg (Ne.symm hu)]
    cases hn : adj[u]? with
    | none => rfl
    | some n =>
      simp only [Option.map_some, Option.some.injEq, ite_eq_left_iff]
      -- a node to which `id` has no link holds no pointer to a link of `id`
      intro hno
      have hnone : adj.findLink id u = none := by
        simp only [findLink, hid, Option.map_eq_none_iff]
        refine (findLinkQuality_eq_none_iff (h.ascending id nd hid)).mpr fun l hl hlu => ?_
        exact hno (List.mem_map.mpr ⟨l, hl, hlu⟩)
      exact (h.mapLink_disconnect hn hnone).symm

end

/-- The links of `id` are gone, and those of the other nodes are found as before: disconnecting them
keeps their identifiers. -/
theorem findLink_clearLinks (adj : AdjList) (id v x : NodeId) :
    AdjList.findLink (clearLinks adj id) v x = if v = id then none else adj.findLink v x := by
  cases hv : adj[v]? with
  | none => simp [findLink, clearLinks, hv]
  | some nd =>
    by_cases hid : v = id
    · subst hid
      rw [if_pos rfl]
      have hclear : (clearLinks adj v)[v]? = some nd.clear := by simp [clearLinks, hv]
      exact findLink_of_clear hclear rfl x
    · rw [if_neg hid]
      have hkept : (clearLinks adj id)[v]? = some (nd.mapLink id disconnect) := by
        simp [clearLinks, hv, hid]
      refine findLink_map_mapLinks
        (f := fun l => if l.neighbor = id then disconnect l else l) ?_ hv hkept rfl x
      intro l
      split <;> rfl

/-- Clearing the links of a node keeps the map consistent. -/
theorem Consistent.clearLinks {adj : AdjList} (h : Consistent adj) (id : NodeId) :
    Consistent (clearLinks adj id) where
  -- The lists only get shorter or keep their order.
  ascending := by
    intro u nd hu
    simp only [Awds.Proofs.clearLinks, getElem?_mapEntries, Option.map_eq_some_iff] at hu
    obtain ⟨n, hn, rfl⟩ := hu
    split
    · exact List.Pairwise.nil
    · refine NDescr.ascending_mapLinks (fun l => ?_) (h.ascending u n hn)
      split <;> rfl
  -- A link to `id` has lost its counterpart, as those of `id` are gone.
  counterpart := by
    intro u nd hu l hl
    simp only [Awds.Proofs.clearLinks, getElem?_mapEntries, Option.map_eq_some_iff] at hu
    obtain ⟨n, hn, rfl⟩ := hu
    rw [findLink_clearLinks]
    split at hl
    · cases hl
    · obtain ⟨r, hr, rfl⟩ := List.mem_map.mp hl
      by_cases hrid : r.neighbor = id
      · simp [hrid, disconnect]
      · rw [if_neg hrid, if_neg hrid]
        exact h.counterpart u n hn r hr
  -- The validities are not touched.
  validity := by
    intro u nd hu
    simp only [Awds.Proofs.clearLinks, getElem?_mapEntries, Option.map_eq_some_iff] at hu
    obtain ⟨n, hn, rfl⟩ := hu
    split
    · exact h.validity u n hn
    · exact h.validity u n hn

/-- Erasing a node without links keeps the map consistent. -/
theorem Consistent.erase {adj : AdjList} (h : Consistent adj) {id : NodeId} {nd : NDescr}
    (hid : adj[id]? = some nd) (hnd : nd.links = []) : Consistent (adj.erase id) where
  ascending := by
    intro u n hu
    rw [getElem?_eraseAt] at hu
    split at hu
    · cases hu
    · exact h.ascending u n hu
  counterpart := by
    intro u n hu l hl
    rw [getElem?_eraseAt] at hu
    split at hu
    · cases hu
    · rw [h.counterpart u n hu l hl]
      by_cases hlid : l.neighbor = id
      · rw [hlid, findLink_of_clear hid hnd]
        simp [findLink]
      · simp [findLink, Ne.symm hlid]
  validity := by
    intro u n hu
    rw [getElem?_eraseAt] at hu
    split at hu
    · cases hu
    · exact h.validity u n hu

/-! ### The pass -/

/-- The links of `v` expire at the time `t`. -/
def edgesExpired (t : AbsTime) (adj : AdjList) (v : NodeId) : Bool :=
  match adj[v]? with
  | none => false
  | some nd => decide (nd.edgeValidity ≤ t)

/-- The node `v` expires at the time `t`. -/
def nodeExpired (t : AbsTime) (adj : AdjList) (v : NodeId) : Bool :=
  match adj[v]? with
  | none => false
  | some nd => decide (nd.nodeValidity ≤ t)

/-- The map behind one turn of the pass. -/
def visitAdj (t : AbsTime) (adj : AdjList) (id : NodeId) : AdjList :=
  let adj' := if edgesExpired t adj id then clearLinks adj id else adj
  if nodeExpired t adj id then adj'.erase id else adj'

/-- The elements for the links that a turn drops. -/
def expiredEdges (t : AbsTime) (adj : AdjList) (id : NodeId) : List XmlElement :=
  if edgesExpired t adj id then (adj.linksOf id).map fun l => .removeEdge id l.neighbor else []

/-- The elements for the node that a turn drops. -/
def expiredNode (t : AbsTime) (adj : AdjList) (id : NodeId) : List XmlElement :=
  if nodeExpired t adj id then [.removeNode id] else []

section
variable {t : AbsTime} {w : Sweep} {id : NodeId}

/-- One turn of the pass. -/
theorem visit_run (h : Consistent w.adj) (t : AbsTime) (id : NodeId) :
    ∃ next, w.visit t id = .ok
      { adj := visitAdj t w.adj id
        edges := w.edges ++ expiredEdges t w.adj id
        nodes := w.nodes ++ expiredNode t w.adj id
        oneRemoved := w.oneRemoved || edgesExpired t w.adj id || nodeExpired t w.adj id
        nextTimeout := next } := by
  unfold Sweep.visit visitAdj expiredEdges expiredNode edgesExpired nodeExpired linksOf
  cases hid : w.adj[id]? with
  | none => exact ⟨w.nextTimeout, by simp⟩
  | some nd =>
    obtain ⟨adj', hrun, inv⟩ := removeReferences_run h hid nd.links.length le_rfl
    have hclear : adj'.modify id
        (fun nd => { nd with linklist := { nd.linklist with links := [] } })
        = clearLinks w.adj id := inv.cleared h hid
    by_cases hedge : nd.edgeValidity ≤ t <;> by_cases hnode : nd.nodeValidity ≤ t <;>
      simp [Sweep.dropEdges, Sweep.dropNode, hedge, hnode, hrun, hclear]

/-- The entry of `id` has no links when it is erased. -/
theorem Consistent.visitAdj {adj : AdjList} (h : Consistent adj) (t : AbsTime) (id : NodeId) :
    Consistent (visitAdj t adj id) := by
  unfold Awds.Proofs.visitAdj edgesExpired nodeExpired
  cases hid : adj[id]? with
  | none => simpa using h
  | some nd =>
    have hval := h.validity id nd hid
    by_cases hnode : nd.nodeValidity ≤ t
    · have hedge : nd.edgeValidity ≤ t := hval.trans hnode
      simp only [hedge, hnode, decide_true, if_true]
      have hclear : (Awds.Proofs.clearLinks adj id)[id]? = some nd.clear := by
        simp [Awds.Proofs.clearLinks, hid]
      exact (h.clearLinks id).erase hclear rfl
    · simp only [hnode, decide_false, Bool.false_eq_true, if_false]
      split
      · exact h.clearLinks id
      · exact h

end

/-- The link `l` behind a pass over the nodes `done`. -/
def sweptLink (t : AbsTime) (adj : AdjList) (done : List NodeId) (l : LinkQuality) :
    LinkQuality :=
  if l.neighbor ∈ done ∧ edgesExpired t adj l.neighbor then disconnect l else l

/-- The entry `nd` of `u` behind a pass over the nodes `done`. -/
def sweptEntry (t : AbsTime) (adj : AdjList) (done : List NodeId) (u : NodeId) (nd : NDescr) :
    Option NDescr :=
  if u ∈ done ∧ nd.nodeValidity ≤ t then none
  else if u ∈ done ∧ nd.edgeValidity ≤ t then some nd.clear
  else some (nd.mapLinks (sweptLink t adj done))

/-- The state of the pass over the map `adj` behind the nodes `done`. -/
structure SweepInv (t : AbsTime) (adj : AdjList) (done : List NodeId) (w : Sweep) : Prop where
  consistent : Consistent w.adj
  entry : ∀ u, w.adj[u]? = adj[u]?.bind (sweptEntry t adj done u)
  edges : w.edges = done.flatMap (expiredEdges t adj)
  nodes : w.nodes = done.flatMap (expiredNode t adj)
  oneRemoved : w.oneRemoved = done.any fun id => edgesExpired t adj id || nodeExpired t adj id

section
variable {t : AbsTime} {adj : AdjList} {done : List NodeId} {w : Sweep} {id : NodeId}

/-- The invariant of `removeOldNodes` before the first node. -/
theorem SweepInv.start (h : Consistent adj) (next : AbsTime) :
    SweepInv t adj [] { adj := adj, nextTimeout := next } where
  consistent := h
  entry := by
    intro u
    have : ∀ nd, sweptEntry t adj [] u nd = some nd := by
      intro nd
      have : ∀ l ∈ nd.links, sweptLink t adj [] l = l := fun l _ => by simp [sweptLink]
      simp [sweptEntry, NDescr.mapLinks_eq_self this]
    cases adj[u]? with
    | none => rfl
    | some nd => simp [this]
  edges := rfl
  nodes := rfl
  oneRemoved := rfl

/-- The entry of a node in front of its turn. -/
theorem SweepInv.ahead (inv : SweepInv t adj done w) (hid : id ∉ done) :
    w.adj[id]? = adj[id]?.map fun nd => nd.mapLinks (sweptLink t adj done) := by
  rw [inv.entry]
  cases adj[id]? with
  | none => rfl
  | some nd => simp [sweptEntry, hid]

/-- Whether the links of a node have expired is the same in the map of the pass and in the map
before it, as long as the node has not been visited. -/
theorem SweepInv.edgesExpired_eq (inv : SweepInv t adj done w) (hid : id ∉ done) :
    edgesExpired t w.adj id = edgesExpired t adj id := by
  unfold edgesExpired
  rw [inv.ahead hid]
  cases adj[id]? with
  | none => rfl
  | some nd => rfl

/-- The same for the node itself. -/
theorem SweepInv.nodeExpired_eq (inv : SweepInv t adj done w) (hid : id ∉ done) :
    nodeExpired t w.adj id = nodeExpired t adj id := by
  unfold nodeExpired
  rw [inv.ahead hid]
  cases adj[id]? with
  | none => rfl
  | some nd => rfl

/-- Disconnecting a neighbour keeps its identifier. -/
theorem neighbor_sweptLink (t : AbsTime) (adj : AdjList) (done : List NodeId)
    (l : LinkQuality) : (sweptLink t adj done l).neighbor = l.neighbor := by
  unfold sweptLink
  split <;> rfl

/-- The neighbours that are dropped at the visit of a node are the ones it has expired links to in
the map before the pass. -/
theorem SweepInv.expiredEdges_eq (inv : SweepInv t adj done w) (hid : id ∉ done) :
    expiredEdges t w.adj id = expiredEdges t adj id := by
  unfold expiredEdges linksOf
  rw [inv.edgesExpired_eq hid, inv.ahead hid]
  cases adj[id]? with
  | none => rfl
  | some nd =>
    simp [Function.comp_def, neighbor_sweptLink]

/-- The links of the entry of another node behind the turn of `id`. -/
theorem sweptLink_snoc (l : LinkQuality) :
    sweptLink t adj (done ++ [id]) l =
      if l.neighbor = id ∧ edgesExpired t adj id then disconnect (sweptLink t adj done l)
      else sweptLink t adj done l := by
  unfold sweptLink
  by_cases hid : l.neighbor = id
  · subst hid
    cases edgesExpired t adj l.neighbor <;> by_cases hd : l.neighbor ∈ done <;>
      simp [hd, disconnect]
  · simp [hid]

/-- One more visited node: its links are disconnected on top of what had been done, if they have
expired, and nothing else changes. -/
theorem mapLinks_sweptLink_snoc (t : AbsTime) (adj : AdjList) (done : List NodeId) (id : NodeId)
    (nd : NDescr) :
    nd.mapLinks (sweptLink t adj (done ++ [id])) =
      if edgesExpired t adj id then (nd.mapLinks (sweptLink t adj done)).mapLink id disconnect
      else nd.mapLinks (sweptLink t adj done) := by
  split
  · rename_i he
    rw [NDescr.mapLink_eq_mapLinks, NDescr.mapLinks_mapLinks]
    refine NDescr.mapLinks_congr fun l _ => ?_
    rw [sweptLink_snoc]
    simp [he, neighbor_sweptLink]
  · rename_i he
    refine NDescr.mapLinks_congr fun l _ => ?_
    rw [sweptLink_snoc]
    simp [he]

/-- The entries behind one turn. -/
theorem SweepInv.entry_visitAdj (inv : SweepInv t adj done w) (hid : id ∉ done) (u : NodeId) :
    (visitAdj t w.adj id)[u]? = adj[u]?.bind (sweptEntry t adj (done ++ [id]) u) := by
  unfold visitAdj
  simp only [inv.edgesExpired_eq hid, inv.nodeExpired_eq hid]
  by_cases hu : u = id
  · -- The pass stands on `u`, whose own validities decide.
    subst hu
    have hahead := inv.ahead hid
    unfold edgesExpired nodeExpired sweptEntry
    cases hn : adj[u]? with
    | none =>
      rw [hn] at hahead
      simpa using hahead
    | some nd =>
      rw [hn] at hahead
      have hstill := mapLinks_sweptLink_snoc t adj done u nd
      simp only [edgesExpired, hn] at hstill
      by_cases hnode : nd.nodeValidity ≤ t <;> by_cases hedge : nd.edgeValidity ≤ t <;>
        simp [hnode, hedge, hahead, clearLinks, hstill]
  · -- Another entry changes only in its link to `id`, if the links of `id` are dropped.
    have herase : ∀ a : AdjList, (if nodeExpired t adj id then a.erase id else a)[u]? = a[u]? := by
      intro a
      split
      · simp [Ne.symm hu]
      · rfl
    rw [herase]
    have hmem : u ∈ done ++ [id] ↔ u ∈ done := by simp [hu]
    -- A node that was not there is not added.
    cases hn : adj[u]? with
    | none =>
      have hw := inv.entry u
      rw [hn] at hw
      split <;> simp [clearLinks, hw]
    -- Its own turn is over or not, and the links of `id` are dropped or not.
    | some nd =>
      have hw := inv.entry u
      rw [hn] at hw
      simp only [Option.bind_some, sweptEntry, hmem, mapLinks_sweptLink_snoc] at hw ⊢
      cases hexp : edgesExpired t adj id with
      | false => simpa using hw
      | true =>
        simp only [if_true, clearLinks, getElem?_mapEntries, hw, hu, if_false]
        by_cases hnode : u ∈ done ∧ nd.nodeValidity ≤ t
        · simp [hnode]
        · by_cases hedge : u ∈ done ∧ nd.edgeValidity ≤ t
          · simp only [if_neg hnode, if_pos hedge, Option.map_some, NDescr.mapLink_clear]
          · simp only [if_neg hnode, if_neg hedge, Option.map_some]

/-- One turn of the pass keeps the invariant. -/
theorem SweepInv.step (inv : SweepInv t adj done w) (hid : id ∉ done) :
    ∃ w', w.visit t id = .ok w' ∧ SweepInv t adj (done ++ [id]) w' := by
  obtain ⟨next, hrun⟩ := visit_run inv.consistent t id
  refine ⟨_, hrun, ⟨inv.consistent.visitAdj t id, inv.entry_visitAdj hid, ?_, ?_, ?_⟩⟩
  · simp [inv.edges, inv.expiredEdges_eq hid]
  · have : expiredNode t w.adj id = expiredNode t adj id := by
      simp only [expiredNode, inv.nodeExpired_eq hid]
    simp [inv.nodes, this]
  · simp [inv.oneRemoved, inv.edgesExpired_eq hid, inv.nodeExpired_eq hid, Bool.or_assoc]

/-- A pass over different nodes ends. -/
theorem SweepInv.pass : ∀ (ks done : List NodeId) (w : Sweep), SweepInv t adj done w →
    (done ++ ks).Nodup →
    ∃ w', ks.foldlM (Sweep.visit t) w = .ok w' ∧ SweepInv t adj (done ++ ks) w' := by
  intro ks
  induction ks with
  | nil =>
    intro done w inv _
    exact ⟨w, rfl, by rwa [List.append_nil]⟩
  | cons k ks ih =>
    intro done w inv hnd
    have hk : k ∉ done := fun hmem =>
      (List.nodup_append.mp hnd).2.2 k hmem k List.mem_cons_self rfl
    obtain ⟨w1, hrun, inv1⟩ := inv.step hk
    rw [List.append_cons] at hnd ⊢
    obtain ⟨w', hrun', inv'⟩ := ih (done ++ [k]) w1 inv1 hnd
    exact ⟨w', by rw [List.foldlM_cons, hrun]; exact hrun', inv'⟩

end

/-- The link `l` behind a whole pass. -/
def survivingLink (t : AbsTime) (adj : AdjList) (l : LinkQuality) : LinkQuality :=
  if edgesExpired t adj l.neighbor then disconnect l else l

/-- The entry `nd` behind a whole pass. -/
def survivingEntry (t : AbsTime) (adj : AdjList) (nd : NDescr) : Option NDescr :=
  if nd.nodeValidity ≤ t then none
  else if nd.edgeValidity ≤ t then some nd.clear
  else some (nd.mapLinks (survivingLink t adj))

/-- The map `adj'` is the map `adj` without what has expired at the time `t`. -/
structure Swept (t : AbsTime) (adj adj' : AdjList) : Prop where
  consistent : Consistent adj'
  entry : ∀ u : NodeId, adj'[u]? = adj[u]?.bind (survivingEntry t adj)

/-- Only a node of the map can have expired links. -/
theorem edgesExpired_mem {t : AbsTime} {adj : AdjList} {v : NodeId}
    (h : edgesExpired t adj v = true) : v ∈ adj.keys := by
  unfold edgesExpired at h
  rw [ExtTreeMap.mem_keys, mem_iff_getElem?]
  cases hv : adj[v]? with
  | none => simp [hv] at h
  | some nd => exact ⟨nd, rfl⟩

/-- The invariant behind the last node is what the pass does to the whole map. -/
theorem SweepInv.swept {t : AbsTime} {adj : AdjList} {w : Sweep}
    (inv : SweepInv t adj adj.keys w) : Swept t adj w.adj where
  consistent := inv.consistent
  entry := by
    intro u
    rw [inv.entry]
    cases hu : adj[u]? with
    | none => rfl
    | some nd =>
      have hmem : u ∈ adj.keys := by
        rw [ExtTreeMap.mem_keys, mem_iff_getElem?]
        exact ⟨nd, hu⟩
      have hlink : nd.mapLinks (sweptLink t adj adj.keys) = nd.mapLinks (survivingLink t adj) := by
        refine NDescr.mapLinks_congr fun l _ => ?_
        unfold sweptLink survivingLink
        cases he : edgesExpired t adj l.neighbor with
        | false => simp
        | true => simp [edgesExpired_mem he]
      simp [sweptEntry, survivingEntry, hmem, hlink]

/-- The document of a whole pass. -/
def expiryDoc (t : AbsTime) (adj : AdjList) : List XmlElement :=
  adj.keys.flatMap (expiredEdges t adj) ++ adj.keys.flatMap (expiredNode t adj)

/-- The state behind a whole pass that has produced the map `adj'`. -/
def sweptState (now : AbsTime) (s : RTopology) (adj' : AdjList) : RTopology :=
  if s.adjList.keys.any fun id =>
      edgesExpired now s.adjList id || nodeExpired now s.adjList id then
    { s with adjList := adj' }.emit (expiryDoc now s.adjList)
  else { s with adjList := adj' }

/-- The observers that are told about the change leave the map as it is. -/
@[simp] theorem sweptState_adjList (now : AbsTime) (s : RTopology) (adj' : AdjList) :
    (sweptState now s adj').adjList = adj' := by
  unfold sweptState
  split
  · exact emit_adjList _ _
  · rfl

/-- Nothing but the map and the observers differs behind the pass. -/
theorem sweptState_frame (now : AbsTime) (s : RTopology) (adj' : AdjList) :
    Frame s (sweptState now s adj') false := by
  unfold sweptState
  have h : Frame s { s with adjList := adj' } false := ⟨by simp, rfl, rfl, rfl⟩
  split
  · exact h.trans (emit_frame _ _)
  · exact h

/-- A map with a node in it is not empty. -/
theorem isEmpty_of_mem {adj : AdjList} {u : NodeId} (h : u ∈ adj) : adj.isEmpty = false := by
  rw [ExtTreeMap.isEmpty_eq_false_iff]
  intro hempty
  simp [hempty] at h

/-- The run of `removeOldNodes`: it does not fail. -/
theorem removeOldNodes_run (now : AbsTime) {s : RTopology} (h : Consistent s.adjList)
    (hne : s.adjList.isEmpty = false) (hlocked : s.locked = false) :
    ∃ adj' next, Swept now s.adjList adj' ∧
      s.removeOldNodes now = .ok (sweptState now s adj', next) := by
  have hnd : ([] ++ s.adjList.keys).Nodup := by
    rw [List.nil_append]
    exact ExtTreeMap.nodup_keys
  obtain ⟨w, hrun, inv⟩ := SweepInv.pass s.adjList.keys [] _
    (SweepInv.start (t := now) h (now + maxCleanupDelay)) hnd
  rw [List.nil_append] at inv
  refine ⟨w.adj, w.nextTimeout, inv.swept, ?_⟩
  rw [removeOldNodes, if_neg (by simp [hne]), if_neg (by simp [hlocked]), hrun, except_bind_ok,
    inv.oneRemoved, inv.edges, inv.nodes]
  rfl

/-- What `removeOldNodes` can do. -/
theorem removeOldNodes_cases {now : AbsTime} {s s' : RTopology} {next : AbsTime}
    (hc : Consistent s.adjList) (h : s.removeOldNodes now = .ok (s', next)) :
    (s.locked = true ∧ s' = s) ∨
    (s.locked = false ∧ ∃ adj', Swept now s.adjList adj' ∧ s' = sweptState now s adj') := by
  by_cases hne : s.adjList.isEmpty
  · rw [removeOldNodes, if_pos hne] at h
    cases h
  · by_cases hlocked : s.locked = true
    · rw [removeOldNodes, if_neg hne, if_pos hlocked] at h
      cases h
      exact .inl ⟨hlocked, rfl⟩
    · obtain ⟨adj', next', hswept, hrun⟩ :=
        removeOldNodes_run now hc (by simpa using hne) (by simpa using hlocked)
      rw [hrun] at h
      cases h
      exact .inr ⟨by simpa using hlocked, adj', hswept, rfl⟩

/-- Nothing has expired. -/
def Unexpired (t : AbsTime) (adj : AdjList) : Prop :=
  ∀ (u : NodeId) (nd : NDescr), adj[u]? = some nd → t < nd.edgeValidity ∧ t < nd.nodeValidity

/-- The hypothesis of `removeOldNodes_of_unexpired` on a concrete map can be checked entry by entry.
-/
theorem unexpired_of_toList {t : AbsTime} {adj : AdjList}
    (h : ∀ e ∈ adj.toList, t < e.2.edgeValidity ∧ t < e.2.nodeValidity) : Unexpired t adj :=
  fun u nd hu => h (u, nd) (ExtTreeMap.mem_toList_iff_getElem?_eq_some.mpr hu)

/-- Where nothing has expired the pass changes nothing, whatever the counterparts are. -/
theorem removeOldNodes_of_unexpired {now : AbsTime} {s : RTopology}
    (hne : s.adjList.isEmpty = false) (h : Unexpired now s.adjList) :
    ∃ next, s.removeOldNodes now = .ok (s, next) := by
  -- Nothing is due, so a pass only looks for the next time.
  have hpass : ∀ (ks : List NodeId) (w : Sweep), w.adj = s.adjList →
      ∃ next, ks.foldlM (Sweep.visit now) w = .ok { w with nextTimeout := next } := by
    intro ks
    induction ks with
    | nil => exact fun w _ => ⟨w.nextTimeout, rfl⟩
    | cons k ks ih =>
      intro w hw
      obtain ⟨next, hvisit⟩ : ∃ next, w.visit now k = .ok { w with nextTimeout := next } := by
        unfold Sweep.visit
        cases hk : w.adj[k]? with
        | none => exact ⟨w.nextTimeout, rfl⟩
        | some nd =>
          obtain ⟨hedge, hnode⟩ := h k nd (hw ▸ hk)
          refine ⟨min w.nextTimeout nd.nodeValidity, ?_⟩
          simp only [Sweep.dropEdges, if_neg (not_le.mpr hedge), except_bind_ok, Sweep.dropNode,
            if_neg (not_le.mpr hnode)]
      obtain ⟨next', hrest⟩ := ih { w with nextTimeout := next } hw
      exact ⟨next', by rw [List.foldlM_cons, hvisit]; exact hrest⟩
  rw [removeOldNodes, if_neg (by simp [hne])]
  -- A locked topology is not cleaned up at all.
  by_cases hlocked : s.locked = true
  · exact ⟨now + maxCleanupDelay, by rw [if_pos hlocked]⟩
  · obtain ⟨next, hrun⟩ := hpass s.adjList.keys
      { adj := s.adjList, nextTimeout := now + maxCleanupDelay } rfl
    exact ⟨next, by rw [if_neg hlocked, hrun]; rfl⟩

end Awds.Proofs
