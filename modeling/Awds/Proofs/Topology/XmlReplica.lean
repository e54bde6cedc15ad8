import Awds.Proofs.Topology.Feed

/-!
# `Awds.Proofs.Topology.XmlReplica`: the XML observers can follow the topology

An observer that reads the topology once with `getXmlString` and then applies the elements
of every document it is sent has the nodes, the edges and the qualities of the topology
after every call.

`Replica` is what the observer holds, and an element is a plain set operation on it. What
a replica holds for one node or one edge is decided by the last element about it
(`lastValue`). All elements of one document about one edge say the same, so the proofs
never need their order.
-/

set_option autoImplicit false

namespace Awds.Proofs

open Std (ExtTreeMap)
open Awds.Lib Awds.AdjList Awds.RTopology

/-! ### Replicas -/

/-- What an observer holds. -/
structure Replica where
  nodes : NodeId → Bool
  edges : NodeId × NodeId → Option UInt16

/-- The replica of an observer that has seen nothing. -/
def Replica.empty : Replica where
  nodes _ := false
  edges _ := none

/-- An element, read as an operation on the set of nodes or the set of edges. -/
def Replica.apply (r : Replica) : XmlElement → Replica
  | .node id _ | .addNode id _ => { r with nodes := Function.update r.nodes id true }
  | .modifyNode _ _ => r
  | .removeNode id => { r with nodes := Function.update r.nodes id false }
  | .edge u v q | .addEdge u v q | .modifyEdge u v q =>
    { r with edges := Function.update r.edges (u, v) (some q) }
  | .removeEdge u v => { r with edges := Function.update r.edges (u, v) none }

/-- Applies the elements in order. -/
def Replica.replay (r : Replica) (es : List XmlElement) : Replica := es.foldl Replica.apply r

/-- The nodes and edges of a topology. -/
def Replica.ofAdjList (adj : AdjList) : Replica where
  nodes v := decide (v ∈ adj)
  edges e := (adj.linkAt e.1 e.2).map LinkQuality.quality

/-- Documents that are applied one after the other. -/
theorem Replica.replay_append (r : Replica) (es fs : List XmlElement) :
    r.replay (es ++ fs) = (r.replay es).replay fs := List.foldl_append

/-! ### The last value counts -/

/-- The value that an element gives a node. -/
def nodeValue (v : NodeId) : XmlElement → Option Bool
  | .node id _ | .addNode id _ => if id = v then some true else none
  | .removeNode id => if id = v then some false else none
  | _ => none

/-- The value that an element gives an edge. -/
def edgeValue (e : NodeId × NodeId) : XmlElement → Option (Option UInt16)
  | .edge u v q | .addEdge u v q | .modifyEdge u v q => if (u, v) = e then some (some q) else none
  | .removeEdge u v => if (u, v) = e then some none else none
  | _ => none

/-- The last value that a list gives, starting from `a`. -/
def lastValue {ε ν : Type} (val : ε → Option ν) (es : List ε) (a : ν) : ν :=
  es.foldl (fun a e => (val e).getD a) a

section
variable {ε ν : Type} {val : ε → Option ν}

/-- Elements that are about something else change nothing. -/
theorem lastValue_of_none {es : List ε} (h : ∀ e ∈ es, val e = none) (a : ν) :
    lastValue val es a = a := by
  induction es generalizing a with
  | nil => rfl
  | cons e es ih =>
    rw [lastValue, List.foldl_cons, h e List.mem_cons_self]
    exact ih (fun e he => h e (List.mem_cons_of_mem _ he)) a

/-- Elements that agree on a value. -/
theorem lastValue_of_agree {es : List ε} {x : ν} (h : ∀ e ∈ es, ∀ y, val e = some y → y = x)
    (a : ν) (hx : a = x ∨ ∃ e ∈ es, val e = some x) : lastValue val es a = x := by
  induction es generalizing a with
  | nil =>
    rcases hx with rfl | ⟨e, he, -⟩
    · rfl
    · cases he
  | cons e es ih =>
    rw [lastValue, List.foldl_cons]
    refine ih (fun e he => h e (List.mem_cons_of_mem _ he)) _ ?_
    cases hval : val e with
    | some y => exact .inl (h e List.mem_cons_self y hval)
    | none =>
      rcases hx with rfl | ⟨f, hf, hfx⟩
      · exact .inl rfl
      · rcases List.mem_cons.mp hf with rfl | hf
        · rw [hval] at hfx
          cases hfx
        · exact .inr ⟨f, hf, hfx⟩

end

/-- Whether a node is shown is decided by the last element about it. -/
theorem Replica.replay_nodes (r : Replica) (es : List XmlElement) (v : NodeId) :
    (r.replay es).nodes v = lastValue (nodeValue v) es (r.nodes v) := by
  induction es generalizing r with
  | nil => rfl
  | cons e es ih =>
    have happly : (r.apply e).nodes v = (nodeValue v e).getD (r.nodes v) := by
      cases e with
      | node id _ | addNode id _ | removeNode id =>
        by_cases hid : id = v
        · simp [apply, nodeValue, hid]
        · simp [apply, nodeValue, hid, Function.update_of_ne (Ne.symm hid)]
      | modifyNode _ _ | edge _ _ _ | addEdge _ _ _ | modifyEdge _ _ _ | removeEdge _ _ => rfl
    rw [replay, List.foldl_cons, lastValue, List.foldl_cons, ← happly]
    exact ih (r.apply e)

/-- The quality of an edge is the one in the last element about it. -/
theorem Replica.replay_edges (r : Replica) (es : List XmlElement) (p : NodeId × NodeId) :
    (r.replay es).edges p = lastValue (edgeValue p) es (r.edges p) := by
  induction es generalizing r with
  | nil => rfl
  | cons e es ih =>
    have happly : (r.apply e).edges p = (edgeValue p e).getD (r.edges p) := by
      cases e with
      | edge u v _ | addEdge u v _ | modifyEdge u v _ | removeEdge u v =>
        by_cases hp : (u, v) = p
        · simp [apply, edgeValue, hp]
        · simp [apply, edgeValue, hp, Function.update_of_ne (Ne.symm hp)]
      | node _ _ | addNode _ _ | modifyNode _ _ | removeNode _ => rfl
    rw [replay, List.foldl_cons, lastValue, List.foldl_cons, ← happly]
    exact ih (r.apply e)

/-- Two replicas are the same if they show the same nodes and edges. -/
theorem Replica.ext_values {r s : Replica} (hn : ∀ v, r.nodes v = s.nodes v)
    (he : ∀ p, r.edges p = s.edges p) : r = s := by
  cases r
  cases s
  congr
  · exact funext hn
  · exact funext he

/-! ### The edges of a topology -/

section
variable {adj : AdjList} {u v : NodeId} {nd : NDescr}

/-- The link of a node is looked up in its entry. -/
theorem linkAt_of_some (h : adj[u]? = some nd) : adj.linkAt u v = nd.linkTo v := by
  simp only [linkAt, h]

/-- An edge is shown with the quality of its link. The vector is ascending, so there is one link to
each neighbour. -/
theorem edges_eq_some (hasc : AllAscending adj) (h : adj[u]? = some nd) {l : LinkQuality}
    (hl : l ∈ nd.links) (hv : l.neighbor = v) :
    (Replica.ofAdjList adj).edges (u, v) = some l.quality := by
  have : nd.linkTo v = some l := (NDescr.linkTo_eq_some_iff (hasc u nd h)).mpr ⟨hl, hv⟩
  simp only [Replica.ofAdjList, linkAt_of_some h, this, Option.map_some]

/-- Without a link no edge is shown. -/
theorem edges_eq_none (h : ∀ nd, adj[u]? = some nd → ∀ l ∈ nd.links, l.neighbor ≠ v) :
    (Replica.ofAdjList adj).edges (u, v) = none := by
  simp only [Replica.ofAdjList, linkAt, Option.map_eq_none_iff]
  cases hu : adj[u]? with
  | none => rfl
  | some nd => exact NDescr.linkTo_eq_none_iff.mpr (h nd hu)

/-- The edges do not change when the links keep their shape. -/
theorem edges_congr {adj' : AdjList}
    (h : (adj'.linksOf u).map shape = (adj.linksOf u).map shape) :
    (Replica.ofAdjList adj').edges (u, v) = (Replica.ofAdjList adj).edges (u, v) :=
  qualityAt_congr h v

/-- Maps with the same nodes and links of the same shape look the same to an observer. -/
theorem Replica.ofAdjList_congr {adj' : AdjList} (hmem : ∀ v, v ∈ adj' ↔ v ∈ adj)
    (hlinks : ∀ u, (adj'.linksOf u).map shape = (adj.linksOf u).map shape) :
    Replica.ofAdjList adj' = Replica.ofAdjList adj := by
  refine Replica.ext_values (fun v => ?_) fun p => edges_congr (hlinks p.1)
  simp only [Replica.ofAdjList, hmem]

end

/-- The elements of the whole document: one for each node, and one for each link. -/
theorem mem_getXmlString {s : RTopology} {e : XmlElement} (he : e ∈ s.getXmlString) :
    (∃ id name, e = .node id name ∧ id ∈ s.adjList) ∨
      ∃ u nd l, s.adjList[u]? = some nd ∧ l ∈ nd.links ∧ e = .edge u l.neighbor l.quality := by
  rcases List.mem_append.mp he with he | he
  · obtain ⟨x, hx, rfl⟩ := List.mem_map.mp he
    have := ExtTreeMap.mem_toList_iff_getElem?_eq_some.mp hx
    exact .inl ⟨x.1, _, rfl, (mem_iff_getElem? _ _).mpr ⟨x.2, this⟩⟩
  · obtain ⟨x, hx, he⟩ := List.mem_flatMap.mp he
    obtain ⟨l, hl, rfl⟩ := List.mem_map.mp he
    exact .inr ⟨x.1, x.2, l, ExtTreeMap.mem_toList_iff_getElem?_eq_some.mp hx, hl, rfl⟩

/-- The whole document shows the nodes of the topology. -/
theorem replay_getXmlString_nodes (s : RTopology) (v : NodeId) :
    (Replica.empty.replay s.getXmlString).nodes v = decide (v ∈ s.adjList) := by
  rw [Replica.replay_nodes]
  by_cases hv : v ∈ s.adjList
  · refine (lastValue_of_agree (x := true) ?_ _ (.inr ?_)).trans (by simp [hv])
    · intro e he y hy
      rcases mem_getXmlString he with ⟨id, name, rfl, -⟩ | ⟨a, nd, l, -, -, rfl⟩
      · simp only [nodeValue] at hy
        split at hy <;> simp_all
      · cases hy
    · obtain ⟨nd, hnd⟩ := (mem_iff_getElem? _ _).mp hv
      refine ⟨.node v (s.adjList.getNameOfNode v), List.mem_append_left _ ?_, by simp [nodeValue]⟩
      exact List.mem_map.mpr ⟨(v, nd), ExtTreeMap.mem_toList_iff_getElem?_eq_some.mpr hnd, rfl⟩
  · refine (lastValue_of_none ?_ _).trans (by simp [Replica.empty, hv])
    intro e he
    rcases mem_getXmlString he with ⟨id, name, rfl, hid⟩ | ⟨a, nd, l, -, -, rfl⟩
    · have : id ≠ v := fun h => hv (h ▸ hid)
      simp [nodeValue, this]
    · rfl

/-- It shows their edges too, each with its quality. -/
theorem replay_getXmlString_edges {s : RTopology} (hasc : AllAscending s.adjList)
    (u v : NodeId) :
    (Replica.empty.replay s.getXmlString).edges (u, v)
      = (Replica.ofAdjList s.adjList).edges (u, v) := by
  rw [Replica.replay_edges]
  by_cases hlink : ∃ nd l, s.adjList[u]? = some nd ∧ l ∈ nd.links ∧ l.neighbor = v
  · -- Each element that speaks of the link says its quality, and one does.
    obtain ⟨nd, l, hnd, hl, hlv⟩ := hlink
    rw [edges_eq_some hasc hnd hl hlv]
    refine lastValue_of_agree ?_ _ (.inr ?_)
    · intro e he y hy
      rcases mem_getXmlString he with ⟨id, name, rfl, -⟩ | ⟨a, n, r, hn, hr, rfl⟩
      · cases hy
      · simp only [edgeValue] at hy
        split at hy
        · rename_i hp
          obtain ⟨rfl, hrv⟩ := Prod.mk.inj hp
          rw [hnd, Option.some.injEq] at hn
          subst hn
          have : r = l := (hasc _ nd hnd).eq_of_key_eq hr hl (hrv.trans hlv.symm)
          simp_all
        · cases hy
    · refine ⟨.edge u l.neighbor l.quality, List.mem_append_right _ ?_,
        by simp [edgeValue, hlv]⟩
      exact List.mem_flatMap.mpr ⟨(u, nd), ExtTreeMap.mem_toList_iff_getElem?_eq_some.mpr hnd,
        List.mem_map.mpr ⟨l, hl, rfl⟩⟩
  · -- No element speaks of a link that is not there.
    rw [edges_eq_none fun nd hnd l hl hlv => hlink ⟨nd, l, hnd, hl, hlv⟩]
    refine lastValue_of_none ?_ _
    intro e he
    rcases mem_getXmlString he with ⟨id, name, rfl, -⟩ | ⟨a, n, r, hn, hr, rfl⟩
    · rfl
    · have : (a, r.neighbor) ≠ (u, v) := by
        intro hp
        obtain ⟨rfl, hrv⟩ := Prod.mk.inj hp
        exact hlink ⟨n, r, hn, hr, hrv⟩
      simp [edgeValue, this]

/-- `getXmlString` prints the topology. -/
theorem replay_getXmlString {s : RTopology} (hasc : AllAscending s.adjList) :
    Replica.empty.replay s.getXmlString = Replica.ofAdjList s.adjList :=
  Replica.ext_values (replay_getXmlString_nodes s) fun p =>
    replay_getXmlString_edges hasc p.1 p.2

/-! ### The document of a cleanup -/

section
variable {t : AbsTime} {adj adj' : AdjList} {e : XmlElement}

/-- The edges that a cleanup announces are those of nodes whose links have expired. -/
theorem mem_expiredEdges : e ∈ adj.keys.flatMap (expiredEdges t adj) ↔
    ∃ u nd l, adj[u]? = some nd ∧ nd.edgeValidity ≤ t ∧ l ∈ nd.links ∧
      e = .removeEdge u l.neighbor := by
  rw [List.mem_flatMap]
  constructor
  · rintro ⟨u, -, he⟩
    unfold expiredEdges edgesExpired linksOf at he
    cases hu : adj[u]? with
    | none => simp [hu] at he
    | some nd =>
      simp only [hu, decide_eq_true_eq] at he
      split at he
      · rename_i hexp
        obtain ⟨l, hl, rfl⟩ := List.mem_map.mp he
        exact ⟨u, nd, l, hu, hexp, hl, rfl⟩
      · cases he
  · rintro ⟨u, nd, l, hu, hexp, hl, rfl⟩
    refine ⟨u, ?_, ?_⟩
    · rw [ExtTreeMap.mem_keys, mem_iff_getElem?]
      exact ⟨nd, hu⟩
    · simp only [expiredEdges, edgesExpired, linksOf, hu, hexp, decide_true, if_true]
      exact List.mem_map.mpr ⟨l, hl, rfl⟩

/-- The nodes that it announces are those that have expired. -/
theorem mem_expiredNodes : e ∈ adj.keys.flatMap (expiredNode t adj) ↔
    ∃ v nd, adj[v]? = some nd ∧ nd.nodeValidity ≤ t ∧ e = .removeNode v := by
  rw [List.mem_flatMap]
  constructor
  · rintro ⟨v, -, he⟩
    unfold expiredNode nodeExpired at he
    cases hv : adj[v]? with
    | none => simp [hv] at he
    | some nd =>
      simp only [hv, decide_eq_true_eq] at he
      split at he
      · rename_i hexp
        exact ⟨v, nd, hv, hexp, List.mem_singleton.mp he⟩
      · cases he
  · rintro ⟨v, nd, hv, hexp, rfl⟩
    refine ⟨v, ?_, ?_⟩
    · rw [ExtTreeMap.mem_keys, mem_iff_getElem?]
      exact ⟨nd, hv⟩
    · simp [expiredNode, nodeExpired, hv, hexp]

/-- The document of a cleanup has these two kinds of elements. -/
theorem mem_expiryDoc : e ∈ expiryDoc t adj ↔
    (∃ u nd l, adj[u]? = some nd ∧ nd.edgeValidity ≤ t ∧ l ∈ nd.links ∧
      e = .removeEdge u l.neighbor) ∨
    ∃ v nd, adj[v]? = some nd ∧ nd.nodeValidity ≤ t ∧ e = .removeNode v := by
  rw [expiryDoc, List.mem_append, mem_expiredEdges, mem_expiredNodes]

/-- Behind it the observer shows the nodes that are left. -/
theorem replay_expiryDoc_nodes (h : Swept t adj adj') (v : NodeId) :
    ((Replica.ofAdjList adj).replay (expiryDoc t adj)).nodes v = decide (v ∈ adj') := by
  rw [Replica.replay_nodes]
  have hmem := h.mem_iff v
  by_cases hexp : ∃ nd, adj[v]? = some nd ∧ nd.nodeValidity ≤ t
  · -- The node has expired: it is removed, and nothing adds it again.
    obtain ⟨nd, hnd, hle⟩ := hexp
    have hgone : v ∉ adj' := by
      rw [hmem]
      rintro ⟨n, hn, hlt⟩
      rw [hnd, Option.some.injEq] at hn
      subst hn
      exact absurd hlt (not_lt.mpr hle)
    refine (lastValue_of_agree (x := false) ?_ _ (.inr ?_)).trans (by simp [hgone])
    · intro e he y hy
      rcases mem_expiryDoc.mp he with ⟨u, n, l, -, -, -, rfl⟩ | ⟨w, n, -, -, rfl⟩
      · cases hy
      · simp only [nodeValue] at hy
        split at hy <;> simp_all
    · exact ⟨.removeNode v, mem_expiryDoc.mpr (.inr ⟨v, nd, hnd, hle, rfl⟩), by simp [nodeValue]⟩
  · -- It has not: it stays where it was, and nothing removes it.
    have hsame : v ∈ adj' ↔ v ∈ adj := by
      rw [hmem, mem_iff_getElem?]
      constructor
      · rintro ⟨nd, hnd, -⟩
        exact ⟨nd, hnd⟩
      · rintro ⟨nd, hnd⟩
        exact ⟨nd, hnd, not_le.mp fun hle => hexp ⟨nd, hnd, hle⟩⟩
    refine (lastValue_of_none ?_ _).trans (by simp [Replica.ofAdjList, hsame])
    intro e he
    rcases mem_expiryDoc.mp he with ⟨u, n, l, -, -, -, rfl⟩ | ⟨w, n, hn, hle, rfl⟩
    · rfl
    · have : w ≠ v := by
        rintro rfl
        exact hexp ⟨n, hn, hle⟩
      simp [nodeValue, this]

/-- Behind it the observer shows the edges that are left. The graph has to be consistent, because a
cleanup drops the expired links of nodes that stay as well. -/
theorem replay_expiryDoc_edges (hc : Consistent adj) (h : Swept t adj adj') (u v : NodeId) :
    ((Replica.ofAdjList adj).replay (expiryDoc t adj)).edges (u, v)
      = (Replica.ofAdjList adj').edges (u, v) := by
  have hafter : (Replica.ofAdjList adj').edges (u, v) = if edgesExpired t adj u then none
      else (Replica.ofAdjList adj).edges (u, v) := h.qualityAt_eq hc u v
  rw [Replica.replay_edges, hafter]
  cases hexp : edgesExpired t adj u with
  | true =>
    -- The links of `u` are gone, with `u` or without it.
    obtain ⟨nd, hnd, hle⟩ : ∃ nd, adj[u]? = some nd ∧ nd.edgeValidity ≤ t := by
      unfold edgesExpired at hexp
      split at hexp
      · cases hexp
      · exact ⟨_, ‹_›, of_decide_eq_true hexp⟩
    rw [if_pos rfl]
    refine lastValue_of_agree ?_ _ ?_
    · intro e he y hy
      rcases mem_expiryDoc.mp he with ⟨a, n, l, -, -, -, rfl⟩ | ⟨w, n, -, -, rfl⟩
      · simp only [edgeValue] at hy
        split at hy <;> simp_all
      · cases hy
    · by_cases hlink : ∃ l ∈ nd.links, l.neighbor = v
      · obtain ⟨l, hl, hlv⟩ := hlink
        exact .inr ⟨.removeEdge u l.neighbor,
          mem_expiryDoc.mpr (.inl ⟨u, nd, l, hnd, hle, hl, rfl⟩), by simp [edgeValue, hlv]⟩
      · refine .inl (edges_eq_none fun n hn l hl hlv => ?_)
        rw [hnd, Option.some.injEq] at hn
        subst hn
        exact hlink ⟨l, hl, hlv⟩
  | false =>
    rw [if_neg (by simp)]
    refine lastValue_of_none ?_ _
    intro e he
    rcases mem_expiryDoc.mp he with ⟨a, n, l, hn, hle, -, rfl⟩ | ⟨w, n, -, -, rfl⟩
    · have : (a, l.neighbor) ≠ (u, v) := by
        intro hp
        obtain ⟨rfl, -⟩ := Prod.mk.inj hp
        simp [edgesExpired, hn, hle] at hexp
      simp [edgeValue, this]
    · rfl

/-- The document of a cleanup says what the cleanup does. -/
theorem replay_expiryDoc (hc : Consistent adj) (h : Swept t adj adj') :
    (Replica.ofAdjList adj).replay (expiryDoc t adj) = Replica.ofAdjList adj' :=
  Replica.ext_values (replay_expiryDoc_nodes h) fun p => replay_expiryDoc_edges hc h p.1 p.2

/-- Nothing is written when nothing has expired. -/
theorem expiryDoc_eq_nil
    (h : ¬adj.keys.any (fun u => edgesExpired t adj u || nodeExpired t adj u) = true) :
    expiryDoc t adj = [] := by
  rw [List.eq_nil_iff_forall_not_mem]
  intro x hx
  have hkey : ∀ {u : NodeId} {nd : NDescr}, adj[u]? = some nd → u ∈ adj.keys := by
    intro u nd hu
    rw [ExtTreeMap.mem_keys, mem_iff_getElem?]
    exact ⟨nd, hu⟩
  rcases mem_expiryDoc.mp hx with ⟨u, nd, l, hu, hle, -⟩ | ⟨u, nd, hu, hle, -⟩
  · exact h (List.any_eq_true.mpr ⟨u, hkey hu, by simp [edgesExpired, hu, hle]⟩)
  · exact h (List.any_eq_true.mpr ⟨u, hkey hu, by simp [nodeExpired, hu, hle]⟩)

end

/-! ### The document of a merge -/

/-- The elements that the merge loop writes for the edges. -/
theorem mem_edgeDoc {src : NodeId} {links old : List LinkQuality} (hnew : AscendingLinks links)
    (hold : AscendingLinks old) {e : XmlElement} :
    e ∈ (mergeOps links old).filterMap (edgeElement src) ↔
      (∃ l ∈ links, (∀ r ∈ old, r.neighbor = l.neighbor → r.quality ≠ l.quality) ∧
        (e = .modifyEdge src l.neighbor l.quality ∧ (∃ r ∈ old, r.neighbor = l.neighbor) ∨
          e = .addEdge src l.neighbor l.quality ∧ ¬ ∃ r ∈ old, r.neighbor = l.neighbor)) ∨
      ∃ r ∈ old, (∀ l ∈ links, l.neighbor ≠ r.neighbor) ∧ e = .removeEdge src r.neighbor := by
  -- The entries of the walk hold the new links with their indices.
  have hzip := ascending_zipIdx hnew
  have hmemzip : ∀ a : LinkQuality × Nat, a ∈ links.zipIdx → a.1 ∈ links := fun a ha =>
    List.mem_of_getElem? (List.mem_zipIdx_iff_getElem?.mp ha)
  rw [List.mem_filterMap]
  constructor
  · rintro ⟨op, hop, he⟩
    cases op with
    | kept a r =>
      obtain ⟨ha, hr, hk⟩ := (mem_threeWay_kept hzip hold).mp hop
      simp only [edgeElement] at he
      split at he
      · rename_i hq
        cases he
        refine .inl ⟨a.1, hmemzip a ha, ?_, .inl ⟨rfl, r, hr, hk.symm⟩⟩
        intro r' hr' hk'
        rw [hold.eq_of_key_eq hr' hr (hk'.trans hk)]
        exact Ne.symm hq
      · cases he
    | added a =>
      obtain ⟨ha, hno⟩ := (mem_threeWay_added hzip hold).mp hop
      cases he
      refine .inl ⟨a.1, hmemzip a ha, fun r hr hk => absurd hk.symm (hno r hr), .inr ⟨rfl, ?_⟩⟩
      rintro ⟨r, hr, hk⟩
      exact hno r hr hk.symm
    | removed r =>
      obtain ⟨hr, hno⟩ := (mem_threeWay_removed hzip hold).mp hop
      cases he
      refine .inr ⟨r, hr, fun l hl => ?_, rfl⟩
      obtain ⟨i, hi⟩ := List.mem_iff_getElem?.mp hl
      exact hno (l, i) (List.mem_zipIdx_iff_getElem?.mpr hi)
  · rintro (⟨l, hl, hq, ⟨rfl, r, hr, hk⟩ | ⟨rfl, hno⟩⟩ | ⟨r, hr, hno, rfl⟩)
    · obtain ⟨i, hi⟩ := List.mem_iff_getElem?.mp hl
      refine ⟨.kept (l, i) r, (mem_threeWay_kept hzip hold).mpr
        ⟨List.mem_zipIdx_iff_getElem?.mpr hi, hr, hk.symm⟩, ?_⟩
      simp [edgeElement, Ne.symm (hq r hr hk)]
    · obtain ⟨i, hi⟩ := List.mem_iff_getElem?.mp hl
      exact ⟨.added (l, i), (mem_threeWay_added hzip hold).mpr
        ⟨List.mem_zipIdx_iff_getElem?.mpr hi, fun r hr hk => hno ⟨r, hr, hk.symm⟩⟩, rfl⟩
    · exact ⟨.removed r, (mem_threeWay_removed hzip hold).mpr
        ⟨hr, fun a ha => hno a.1 (hmemzip a ha)⟩, rfl⟩

/-- What the document of the merge says about an edge is right: the new quality, or that
there is no such link any more. -/
theorem edgeDoc_says {src v : NodeId} {links old : List LinkQuality}
    (hnew : AscendingLinks links) (hold : AscendingLinks old) {e : XmlElement}
    (he : e ∈ (mergeOps links old).filterMap (edgeElement src)) {y : Option UInt16}
    (hy : edgeValue (src, v) e = some y) :
    (∃ l ∈ links, l.neighbor = v ∧ y = some l.quality) ∨
      (∀ l ∈ links, l.neighbor ≠ v) ∧ y = none := by
  rcases (mem_edgeDoc hnew hold).mp he with
    ⟨l, hl, -, ⟨rfl, -⟩ | ⟨rfl, -⟩⟩ | ⟨o, ho, hno, rfl⟩ <;>
  simp only [edgeValue, Prod.mk.injEq, true_and] at hy <;>
  split at hy
  · exact .inl ⟨l, hl, ‹_›, (Option.some.inj hy).symm⟩
  · cases hy
  · exact .inl ⟨l, hl, ‹_›, (Option.some.inj hy).symm⟩
  · cases hy
  · rename_i hov
    exact .inr ⟨fun l hl hlv => hno l hl (hlv.trans hov.symm), (Option.some.inj hy).symm⟩
  · cases hy

/-- The document of the merge turns the old edges of the source into the new ones. -/
theorem replay_edgeDoc {src : NodeId} {links : List LinkQuality} {ns : NDescr}
    (hnew : AscendingLinks links) (hold : AscendingLinks ns.links) {r : Replica}
    (hr : ∀ v, r.edges (src, v) = (ns.linkTo v).map LinkQuality.quality) (v : NodeId) :
    (r.replay ((mergeOps links ns.links).filterMap (edgeElement src))).edges (src, v)
      = (links.find? fun l => l.neighbor = v).map LinkQuality.quality := by
  rw [Replica.replay_edges, hr]
  by_cases hlink : ∃ l ∈ links, l.neighbor = v
  · -- The link is in the packet, so every element that speaks of it says its quality.
    obtain ⟨l, hl, hlv⟩ := hlink
    have hfind : links.find? (fun l => l.neighbor = v) = some l := by
      have hasc : AscendingLinks { ns with linklist.links := links }.links := hnew
      exact (NDescr.linkTo_eq_some_iff hasc).mpr ⟨hl, hlv⟩
    rw [hfind, Option.map_some]
    refine lastValue_of_agree ?_ _ ?_
    · intro e he y hy
      rcases edgeDoc_says hnew hold he hy with ⟨l', hl', hlv', rfl⟩ | ⟨hno, -⟩
      · rw [hnew.eq_of_key_eq hl' hl (hlv'.trans hlv.symm)]
      · exact absurd hlv (hno l hl)
    · -- A link that was there with the same quality is not written, but the observer has it.
      by_cases hkept : ∃ o ∈ ns.links, o.neighbor = l.neighbor
      · obtain ⟨o, ho, hk⟩ := hkept
        by_cases hq : o.quality = l.quality
        · left
          rw [(NDescr.linkTo_eq_some_iff hold).mpr ⟨ho, hk.trans hlv⟩, Option.map_some, hq]
        · refine .inr ⟨.modifyEdge src l.neighbor l.quality, (mem_edgeDoc hnew hold).mpr
            (.inl ⟨l, hl, fun o' ho' hk' => ?_, .inl ⟨rfl, o, ho, hk⟩⟩), by simp [edgeValue, hlv]⟩
          rw [hold.eq_of_key_eq ho' ho (hk'.trans hk.symm)]
          exact hq
      · exact .inr ⟨.addEdge src l.neighbor l.quality, (mem_edgeDoc hnew hold).mpr
          (.inl ⟨l, hl, fun o ho hk => absurd ⟨o, ho, hk⟩ hkept, .inr ⟨rfl, hkept⟩⟩),
          by simp [edgeValue, hlv]⟩
  · -- The link is not in the packet: it is removed if it was there.
    have hfind : links.find? (fun l => l.neighbor = v) = none := by
      rw [List.find?_eq_none]
      intro l hl hlv
      exact hlink ⟨l, hl, by simpa using hlv⟩
    rw [hfind, Option.map_none]
    refine lastValue_of_agree ?_ _ ?_
    · intro e he y hy
      rcases edgeDoc_says hnew hold he hy with ⟨l, hl, hlv, -⟩ | ⟨-, rfl⟩
      · exact absurd ⟨l, hl, hlv⟩ hlink
      · rfl
    · by_cases hwas : ∃ o ∈ ns.links, o.neighbor = v
      · obtain ⟨o, ho, hov⟩ := hwas
        exact .inr ⟨.removeEdge src o.neighbor, (mem_edgeDoc hnew hold).mpr
          (.inr ⟨o, ho, fun l hl hk => hlink ⟨l, hl, hk.trans hov⟩, rfl⟩), by simp [edgeValue, hov]⟩
      · left
        rw [NDescr.linkTo_eq_none_iff.mpr fun o ho hov => hwas ⟨o, ho, hov⟩, Option.map_none]

/-- The document of the merge is about edges of the source. -/
theorem edgeDoc_values {src : NodeId} {ops : List MergeOp} {e : XmlElement}
    (he : e ∈ ops.filterMap (edgeElement src)) :
    (∀ v, nodeValue v e = none) ∧ ∀ u v, u ≠ src → edgeValue (u, v) e = none := by
  obtain ⟨op, -, he⟩ := List.mem_filterMap.mp he
  cases op with
  | kept a r =>
    simp only [edgeElement] at he
    split at he
    · cases he
      exact ⟨fun _ => rfl, fun u v hu => by simp [edgeValue, Ne.symm hu]⟩
    · cases he
  | added a =>
    cases he
    exact ⟨fun _ => rfl, fun u v hu => by simp [edgeValue, Ne.symm hu]⟩
  | removed r =>
    cases he
    exact ⟨fun _ => rfl, fun u v hu => by simp [edgeValue, Ne.symm hu]⟩

/-! ### An observer along a run -/

/-- The observer that started with the replica `r0` when the log was `base` holds `r`. -/
def Shows (base : List (List XmlElement)) (r0 : Replica) (s : RTopology) (r : Replica) : Prop :=
  s.watched = true ∧ ∃ log, s.xmlLog = base ++ log ∧ r0.replay log.flatten = r

section
variable {base : List (List XmlElement)} {r0 r : Replica} {s s' : RTopology}

/-- A document that is told to the observers is applied to the replica. -/
theorem Shows.emit (h : Shows base r0 s r) (doc : List XmlElement) :
    Shows base r0 (s.emit doc) (r.replay doc) := by
  obtain ⟨hw, log, hlog, rfl⟩ := h
  rw [RTopology.emit, if_pos hw]
  refine ⟨hw, log ++ [doc], ?_, ?_⟩
  · rw [← List.append_assoc, ← hlog]
  · rw [← Replica.replay_append]
    simp

/-- What leaves the log alone leaves the replica of an observer alone. -/
theorem Shows.of_eq (h : Shows base r0 s r) (s' : RTopology) (hw : s'.watched = s.watched)
    (hl : s'.xmlLog = s.xmlLog) : Shows base r0 s' r := by
  obtain ⟨hw', log, hlog, hr⟩ := h
  exact ⟨hw.trans hw', log, hl.trans hlog, hr⟩

/-- The same replica under another name. -/
theorem Shows.congr {r' : Replica} (h : Shows base r0 s r) (hr : r = r') : Shows base r0 s r' :=
  hr ▸ h

/-- `getNodeEntry` tells the observer about a new node. -/
theorem Shows.getNodeEntry (edges : NodeId × NodeId → Option UInt16)
    (h : Shows base r0 s ⟨fun v => decide (v ∈ s.adjList), edges⟩) (st : Station)
    (now : AbsTime) (id : NodeId) :
    Shows base r0 (s.getNodeEntry st now id)
      ⟨fun v => decide (v ∈ s.adjList ∨ v = id), edges⟩ := by
  by_cases hid : id ∈ s.adjList
  · rw [RTopology.getNodeEntry, if_pos hid]
    convert h using 5 with v
    exact or_iff_left_of_imp fun hv => hv ▸ hid
  · obtain ⟨adj, name, hent⟩ : ∃ adj name,
        s.getNodeEntry st now id = { s with adjList := adj }.emit [.addNode id name] :=
      ⟨_, _, by rw [RTopology.getNodeEntry, if_neg hid]⟩
    rw [hent]
    refine ((h.of_eq { s with adjList := adj } rfl rfl).emit _).congr ?_
    refine Replica.ext_values (fun v => ?_) fun p => rfl
    rw [Replica.replay_nodes]
    by_cases hv : v = id
    · simp [lastValue, nodeValue, hv]
    · simp [lastValue, nodeValue, hv, Ne.symm hv]

/-- The nodes of the map in the course of the merge. -/
theorem MergeInv.mem_iff {st : Station} {now newValidity : AbsTime} {src : NodeId}
    {adj0 adj : AdjList} {ns : NDescr} {done : List MergeOp}
    (h0 : MergeStart newValidity src adj0 ns)
    (inv : MergeInv st now newValidity src adj0 ns done adj) (v : NodeId) :
    v ∈ adj ↔ v ∈ adj0 ∨ ∃ op ∈ done, op.neighbor = v := by
  by_cases hv : v = src
  · subst hv
    have h1 : v ∈ adj := (mem_iff_getElem? _ _).mpr ⟨_, inv.source⟩
    have h2 : v ∈ adj0 := (mem_iff_getElem? _ _).mpr ⟨_, h0.entry⟩
    simp [h1, h2]
  · by_cases hop : ∃ op ∈ done, op.neighbor = v
    · obtain ⟨op, hop, rfl⟩ := hop
      have h1 : op.neighbor ∈ adj :=
        (mem_iff_getElem? _ _).mpr ⟨_, inv.visited op hop hv⟩
      exact ⟨fun _ => .inr ⟨op, hop, rfl⟩, fun _ => h1⟩
    · have hother := inv.other v hv fun op ho hk => hop ⟨op, ho, hk⟩
      rw [mem_iff_getElem?, mem_iff_getElem?, hother]
      simp [hop]

/-- The observer behind the merge loop: it knows the new nodes and has the old edges. -/
theorem Shows.mergeFold {st : Station} {now newValidity : AbsTime} {src : NodeId}
    {adj0 : AdjList} {ns : NDescr} {edges : NodeId × NodeId → Option UInt16}
    (h0 : MergeStart newValidity src adj0 ns) {ops : List MergeOp} (hs0 : s.adjList = adj0)
    (hok : ∀ op ∈ ops, OpOk ns op) (hd : Distinct ops)
    (h : Shows base r0 s ⟨fun v => decide (v ∈ s.adjList), edges⟩)
    (hrun : ops.foldlM (mergeStep st now newValidity src ns.linklist.buf) s = .ok s') :
    Shows base r0 s' ⟨fun v => decide (v ∈ s'.adjList), edges⟩ := by
  refine (mergeFold_induct (P := fun _ t => Shows base r0 t
    ⟨fun v => decide (v ∈ t.adjList), edges⟩) h0 ?_ ops [] s s'
    (by rw [hs0]; exact MergeInv.start h0) h hok hd hrun).2
  intro done op t adj inv inv' _ _ ht
  have hentry := (Shows.getNodeEntry _ ht st now op.neighbor).of_eq
    { t.getNodeEntry st now op.neighbor with adjList := adj, dirty := t.dirty || changes op }
    rfl rfl
  convert hentry using 5 with v
  rw [inv'.mem_iff h0, inv.mem_iff h0]
  simp only [List.mem_append, List.mem_singleton, or_and_right, exists_or, exists_eq_left,
    or_assoc, eq_comm (a := v)]

/-- A new name puts no node into the map and takes none out. -/
theorem updateName_mem_iff (t : RTopology) (src v : NodeId) (p : BasePacket) :
    v ∈ (t.updateName src p).1.adjList ↔ v ∈ t.adjList := by
  rw [mem_iff_getElem?, mem_iff_getElem?, updateName_lookup]
  split
  · cases t.adjList[v]? <;> simp
  · rfl

/-- The document about a name says nothing about nodes or edges. -/
theorem updateName_doc {t : RTopology} {src : NodeId} {p : BasePacket} {e : XmlElement}
    (he : e ∈ (t.updateName src p).2) :
    (∀ v, nodeValue v e = none) ∧ ∀ u v, edgeValue (u, v) e = none := by
  unfold updateName at he
  split at he
  · simp only at he
    split at he
    · rw [List.mem_singleton.mp he]
      exact ⟨fun _ => rfl, fun _ _ => rfl⟩
    · cases he
  · cases he

/-- A new name is not told here. It goes into the document of the merge. -/
theorem updateName_log (t : RTopology) (src : NodeId) (p : BasePacket) :
    (t.updateName src p).1.watched = t.watched ∧ (t.updateName src p).1.xmlLog = t.xmlLog := by
  unfold updateName
  split <;> exact ⟨rfl, rfl⟩

/-- The observer gets the document behind the loop. -/
theorem Shows.finishMerge (h : Shows base r0 s r) (src : NodeId) (p : BasePacket)
    (ops : List MergeOp) :
    Shows base r0 (finishMerge src p ops s)
      (r.replay (ops.filterMap (edgeElement src) ++ (s.updateName src p).2)) := by
  obtain ⟨hw, hl⟩ := updateName_log s src p
  have h' : Shows base r0 (s.updateName src p).1 r := h.of_eq _ hw hl
  unfold Awds.Proofs.finishMerge
  simp only
  split
  · rename_i hempty
    rw [List.isEmpty_iff] at hempty
    rw [hempty]
    exact h'
  · exact h'.emit _

/-- The merge keeps the observer up to date. -/
theorem Shows.mergeLinks {st : Station} {now newValidity : AbsTime} {p : BasePacket}
    {links : List LinkQuality} (hc : Consistent s.adjList)
    (hmem : SrcPacket.getSrc p ∈ s.adjList) (hnew : AscendingLinks links)
    (h : Shows base r0 s (Replica.ofAdjList s.adjList))
    (hrun : s.mergeLinks st now newValidity p links = .ok s') :
    Shows base r0 s' (Replica.ofAdjList s'.adjList) := by
  set src := SrcPacket.getSrc p with hsrcdef
  obtain ⟨ns, hns⟩ := (mem_iff_getElem? _ _).mp hmem
  have hold := hc.ascending _ _ hns
  have hmerged := (mergeLinks_spec hns hc.ascending hnew hrun).1
  rw [mergeLinks_eq hns, bind_eq_ok] at hrun
  obtain ⟨t, ht, hrun⟩ := hrun
  cases hrun
  have hstart := mergeStart_swapLinks newValidity hns hc.ascending hnew
  have hswapmem : ∀ v, v ∈ (s.swapLinks src newValidity links).adjList ↔ v ∈ s.adjList := by
    intro v
    rw [mem_iff_getElem?, mem_iff_getElem?, swapLinks_lookup hns]
    split
    · rename_i hv
      simp [hv, hns]
    · rfl
  have hswap : Shows base r0 (s.swapLinks src newValidity links)
      ⟨fun v => decide (v ∈ (s.swapLinks src newValidity links).adjList),
        (Replica.ofAdjList s.adjList).edges⟩ := by
    refine (h.of_eq (s.swapLinks src newValidity links) rfl rfl).congr ?_
    exact Replica.ext_values (fun v => by simp [Replica.ofAdjList, hswapmem]) fun _ => rfl
  have hloop := hswap.mergeFold hstart rfl
    (fun op hop => opOk_of_mem_mergeOps hnew hold rfl hop) (distinct_mergeOps hnew hold) ht
  -- The loop tells the observer about new nodes only. The edges come with the document.
  refine (hloop.finishMerge src p (mergeOps links ns.links)).congr ?_
  refine Replica.ext_values (fun v => ?_) fun e => ?_
  · rw [Replica.replay_nodes, lastValue_of_none]
    · simp only [Replica.ofAdjList, finishMerge_adjList, updateName_mem_iff]
    · intro e he
      rcases List.mem_append.mp he with he | he
      · exact (edgeDoc_values he).1 v
      · exact (updateName_doc he).1 v
  · obtain ⟨u, v⟩ := e
    rw [Replica.replay_append, Replica.replay_edges _ (t.updateName src p).2, lastValue_of_none]
    · by_cases hu : u = src
      · subst hu
        rw [replay_edgeDoc hnew hold]
        · have hafter : AdjList.linkAt (Awds.Proofs.finishMerge (SrcPacket.getSrc p) p
              (mergeOps links ns.links) t).adjList src v
              = ((swappedEntry s newValidity links ns).mapLinks
                (mergedLink st.metric (s.swapLinks src newValidity links).adjList src)).linkTo v :=
            (linkAt_of_some hmerged.source).trans rfl
          simp only [Replica.ofAdjList, hafter]
          rw [NDescr.linkTo_mapLinks (f := mergedLink st.metric
            (s.swapLinks src newValidity links).adjList src) (fun _ => rfl), Option.map_map]
          rfl
        · intro w
          simp only [Replica.ofAdjList, linkAt_of_some hns]
      · rw [Replica.replay_edges, lastValue_of_none]
        · exact (edges_congr (Merged.shape_of_ne hns hnew hmerged hu)).symm
        · exact fun e he => (edgeDoc_values he).2 u v hu
    · exact fun e he => (updateName_doc he).2 u v

/-- A cleanup keeps the observer up to date. -/
theorem Shows.sweep {t next : AbsTime} (hc : Consistent s.adjList)
    (h : Shows base r0 s (Replica.ofAdjList s.adjList))
    (hrun : s.removeOldNodes t = .ok (s', next)) :
    Shows base r0 s' (Replica.ofAdjList s'.adjList) := by
  rcases removeOldNodes_cases hc hrun with ⟨-, rfl⟩ | ⟨-, adj', hswept, rfl⟩
  · exact h
  · rw [sweptState_adjList, ← replay_expiryDoc hc hswept]
    have h' : Shows base r0 { s with adjList := adj' } (Replica.ofAdjList s.adjList) :=
      h.of_eq _ rfl rfl
    unfold sweptState
    split
    · exact h'.emit _
    · rename_i hnone
      rw [expiryDoc_eq_nil hnone]
      exact h'

/-- Ending the validity of the other nodes is not seen by the observer. -/
theorem Replica.ofAdjList_invalidate (st : Station) (t : AbsTime) (s : RTopology) :
    Replica.ofAdjList (s.invalidate st t).adjList = Replica.ofAdjList s.adjList := by
  have hlookup : ∀ v : NodeId, (s.invalidate st t).adjList[v]?
      = s.adjList[v]?.map fun nd => if v ≠ st.myNodeId then
        { nd with nodeValidity := t, edgeValidity := t } else nd := by
    intro v
    rw [RTopology.invalidate, getElem?_mapEntries]
  refine Replica.ofAdjList_congr (fun v => ?_) fun u => ?_
  · rw [mem_iff_getElem?, mem_iff_getElem?, hlookup]
    cases s.adjList[v]? <;> simp
  · unfold linksOf
    rw [hlookup]
    cases s.adjList[u]? with
    | none => rfl
    | some nd =>
      simp only [Option.map_some]
      split <;> rfl

end

/-- An event keeps the observer up to date. -/
theorem Shows.exec {base : List (List XmlElement)} {r0 : Replica} {st : Station} {e : Event}
    {s s' : RTopology} (hc : Consistent s.adjList)
    (h : Shows base r0 s (Replica.ofAdjList s.adjList)) (he : FeedsSized e)
    (hrun : s.exec st e = .ok s') :
    Shows base r0 s' (Replica.ofAdjList s'.adjList) := by
  have hall := exec_keeps (e := e) (P := fun s => Consistent s.adjList ∧
    Shows base r0 s (Replica.ofAdjList s.adjList)) ?_ ?_ ?_ ?_ ?_ ?_ ?_ ⟨hc, h⟩ he hrun
  · exact hall.2
  · -- A new entry is announced as a node without links.
    rintro s id ⟨hc, h⟩
    refine ⟨hc.getNodeEntry st e.now id,
      (Shows.getNodeEntry (Replica.ofAdjList s.adjList).edges h st e.now id).congr ?_⟩
    refine Replica.ext_values (fun v => ?_) fun p => ?_
    · simp only [Replica.ofAdjList, getNodeEntry_adjList, ExtTreeMap.mem_insert,
        compare_eq_iff_eq, eq_comm (a := id), or_comm]
    · obtain ⟨u, v⟩ := p
      exact (edges_congr (by rw [linksOf_getNodeEntry])).symm
  · -- A merge writes a document of its own.
    rintro s p links s' ⟨hc, h⟩ hmem - hnew - hrun
    exact ⟨hc.mergeLinks hmem hnew hrun, h.mergeLinks hc hmem hnew hrun⟩
  · -- So does a cleanup.
    rintro s s' next ⟨hc, h⟩ hrun
    exact ⟨hc.sweep hrun, h.sweep hc hrun⟩
  · -- Routes are not in a replica.
    rintro s adj ⟨hc, h⟩ hrun
    have hsame := calcRoutes_sameGraph hrun
    refine ⟨hc.of_sameGraph hsame, (h.of_eq { s with adjList := adj, dirty := false }
      rfl rfl).congr ?_⟩
    exact (Replica.ofAdjList_congr hsame.mem_iff fun u => by rw [hsame.linksOf]).symm
  · -- Nor are validities.
    rintro t s - ⟨hc, h⟩
    refine ⟨Consistent.invalidate (s := { s with dirty := true }) hc st t,
      (h.of_eq (RTopology.invalidate st t { s with dirty := true }) rfl rfl).congr ?_⟩
    exact (Replica.ofAdjList_invalidate st t { s with dirty := true }).symm
  · exact fun s b h => ⟨h.1, h.2.of_eq _ rfl rfl⟩
  · -- Registering an observer writes no document.
    rintro s ⟨hc, h⟩
    obtain ⟨hw, log, hlog, hr⟩ := h
    exact ⟨hc, rfl, log, hlog, hr⟩

/-- An observer that registers in a state `s0` of a run and reads `getXmlString` there
holds, in every later state, the nodes, the edges and the qualities of the topology. -/
theorem observer_follows {st : Station} {s0 s : RTopology}
    (h0 : Reachable st (fun _ e => FeedsSized e) s0) (hw : s0.watched = true)
    (h : Relation.ReflTransGen (Step st fun _ e => FeedsSized e) s0 s) :
    ∃ log, s.xmlLog = s0.xmlLog ++ log ∧
      (Replica.empty.replay s0.getXmlString).replay log.flatten = Replica.ofAdjList s.adjList := by
  have hc0 := consistent_of_reachable h0
  have hall : Consistent s.adjList ∧ Shows s0.xmlLog (Replica.empty.replay s0.getXmlString) s
      (Replica.ofAdjList s.adjList) := by
    induction h with
    | refl =>
      refine ⟨hc0, hw, [], by simp, ?_⟩
      rw [List.flatten_nil]
      exact replay_getXmlString hc0.ascending
    | tail _ hstep ih =>
      obtain ⟨e, he, hrun⟩ := hstep
      exact ⟨ih.1.exec he hrun, ih.2.exec ih.1 he hrun⟩
  exact hall.2.2

/-- An observer of the constructed topology learns of the links that come later. -/
theorem observer_follows_mutualRun :
    ∃ s0 s : RTopology, ∃ log, Reachable (.hopCount 1) (fun _ e => FeedsSized e) s0 ∧
      s0.watched = true ∧ s.xmlLog = s0.xmlLog ++ log ∧
      ((Replica.empty.replay s0.getXmlString).replay log.flatten).edges (2, 1) = some 20 := by
  set s0 : RTopology := { init (.hopCount 1) 0 with watched := true } with hs0
  have hreach : Reachable (.hopCount 1) (fun _ e => FeedsSized e) s0 :=
    ⟨0, .single ⟨⟨0, .watch⟩, fun p hp => (by cases hp), rfl⟩⟩
  obtain ⟨s, hs, htest⟩ := exists_of_test
    (mutualRun.foldlM (exec (.hopCount 1)) s0)
    (fun s => decide ((Replica.ofAdjList s.adjList).edges (2, 1) = some 20))
    (by decide +kernel)
  obtain ⟨log, hlog, hreplay⟩ := observer_follows hreach rfl
    (steps_of_events mutualRun _ s (fun e he _ => feedsSized_mutualRun e he) hs)
  refine ⟨s0, s, log, hreach, rfl, hlog, ?_⟩
  rw [hreplay]
  simpa using htest

end Awds.Proofs
