import Awds.Proofs.Topology.Cleanup
import Awds.Proofs.Topology.Search

/-!
# `Awds.Proofs.Topology.Forwarding`: the routes of the stations are free of loops

Every station computes its routes for itself (`calcRoutes_correct`), with its own choice
between paths of the same weight. `exists_route` puts the stations together: a packet that
every station on its way passes to its own next hop arrives.
-/

set_option autoImplicit false

namespace Awds.Proofs

open Std (ExtTreeMap)
open Awds.Lib Awds.AdjList

/-- The next hop for `dest` that a station reports, if it finds one. -/
def hopTo (st : Station) (now : AbsTime) (s : RTopology) (dest : NodeId) : Option NodeId :=
  match s.getNextHop st now dest with
  | .ok (_, hop, true) => some hop
  | _ => none

/-- With routes that are up to date, `getNextHop` looks the next hop up. -/
theorem getNextHop_of_clean {st : Station} {now : AbsTime} {s : RTopology} {dest : NodeId}
    (hs : s.dirty = false) :
    s.getNextHop st now dest = .ok (match s.adjList[dest]? with
      | none => (s, 0, false)
      | some nd => (s, nd.nextHop, decide (nd.nextHop ≠ st.myNodeId))) := by
  rw [RTopology.getNextHop, if_neg (by simp [hs]), except_bind_ok]
  split <;> simp_all

/-- The links with their weights are the same. -/
theorem SameWeights.linksOf {a b : AdjList} (h : SameWeights a b) (u : NodeId) :
    (b.linksOf u).map (fun l => (l.neighbor, l.metricWeight))
      = (a.linksOf u).map fun l => (l.neighbor, l.metricWeight) := by
  have hu := h u
  unfold AdjList.linksOf
  cases h1 : a[u]? <;> cases h2 : b[u]? <;> simp_all [NDescr.weights]

/-- So the edges are the same. -/
theorem SameWeights.edge {a b : AdjList} (h : SameWeights a b) : Edge b = Edge a := by
  funext u v c
  have hiff : ∀ ls : List LinkQuality,
      (∃ l ∈ ls, l.neighbor = v ∧ l.metricWeight.toNat = c) ↔
        ∃ x ∈ ls.map (fun l => (l.neighbor, l.metricWeight)), x.1 = v ∧ x.2.toNat = c := by
    intro ls
    simp
  simp only [Edge, h.mem_iff, hiff, h.linksOf]

/-- The bounds on the weights hold for both maps or for none. -/
theorem SameWeights.weightsIn {a b : AdjList} (h : SameWeights a b) (hw : WeightsIn a) :
    WeightsIn b := by
  intro u l hl
  have hmem := List.mem_map_of_mem (f := fun l => (l.neighbor, l.metricWeight)) hl
  rw [h.linksOf, List.mem_map] at hmem
  obtain ⟨r, hr, heq⟩ := hmem
  have : r.metricWeight = l.metricWeight := congrArg Prod.snd heq
  rw [← this]
  exact hw u r hr

/-- The number of nodes is the same, since the keys are. -/
theorem SameWeights.size {a b : AdjList} (h : SameWeights a b) : a.size = b.size := by
  rw [← ExtTreeMap.length_keys, ← ExtTreeMap.length_keys, keys_congr h.mem_iff]

/-- `updateTopology` computes shortest routes when nothing has expired. -/
theorem updateTopology_correct (st : Station) {now : AbsTime} {s : RTopology}
    (hmy : st.myNodeId ∈ s.adjList) (hsize : s.adjList.size ≤ 1024) (hw : WeightsIn s.adjList)
    (hvalid : Unexpired now s.adjList) :
    ∃ s', s.updateTopology st now = .ok s' ∧ s'.dirty = false ∧
      RoutesCorrect st.myNodeId s.adjList s'.adjList := by
  have hne := isEmpty_of_mem hmy
  obtain ⟨next, hsweep⟩ := removeOldNodes_of_unexpired hne hvalid
  obtain ⟨adj', hrun, hcorrect⟩ := calcRoutes_correct hmy hsize hw
  refine ⟨{ s with adjList := adj', dirty := false }, ?_, rfl, hcorrect⟩
  simp only [RTopology.updateTopology, hsweep, except_bind_ok, hrun]

/-- A walk stays in the map: every edge ends there. -/
theorem walk_mem_adj {adj : AdjList} {u v : NodeId} {c : Nat} (h : Walk (Edge adj) u v c)
    (hu : u ∈ adj) : v ∈ adj := by
  induction h with
  | nil => exact hu
  | cons he _ ih => exact ih he.1

section
variable {st : Station} {s : RTopology} {adj : AdjList}
  (hc : RoutesCorrect st.myNodeId adj s.adjList) (hclean : s.dirty = false)
include hc hclean

/-- A station that is at distance `n` of `dest` reports the head of a shortest walk. -/
theorem RoutesCorrect.hopTo_eq (now : AbsTime) {dest : NodeId} {n : Nat}
    (hmy : st.myNodeId ∈ adj) (hne : dest ≠ st.myNodeId)
    (hn : IsDist (Edge adj) st.myNodeId dest n) :
    s.adjList.distanceOf dest = n ∧ ∃ v c m, hopTo st now s dest = some v ∧
      Edge adj st.myNodeId v c ∧ IsDist (Edge adj) v dest m ∧ n = c + m := by
  have hmem : dest ∈ s.adjList := (hc.graph.mem_iff dest).mpr (walk_mem_adj hn.1 hmy)
  obtain ⟨nd, hnd⟩ := (mem_iff_getElem? _ _).mp hmem
  have hlt : nd.distance < maxDistance := by
    by_contra hnlt
    exact (hc.unreached dest nd hnd hnlt).2 n hn.1
  have hdist : nd.distance = n := (hc.reached dest nd hnd hlt).unique hn
  obtain ⟨hhop, c, m, he, hwalk, hsum⟩ := hc.hop dest nd hnd hne hlt
  have hn' : n = c + m := hdist.symm.trans hsum
  refine ⟨(distanceOf_of_mem hnd).trans hdist, nd.nextHop, c, m, ?_, he, ?_, hn'⟩
  · rw [hopTo, getNextHop_of_clean hclean, hnd]
    simp [hhop]
  · exact IsDist.tail (hn' ▸ hn) he hwalk

/-- A station reports nothing for a node that it cannot reach. -/
theorem RoutesCorrect.getNextHop_unreachable (now : AbsTime) {dest : NodeId}
    (hno : ¬ ∃ c, Walk (Edge adj) st.myNodeId dest c) :
    ∃ hop, s.getNextHop st now dest = .ok (s, hop, false) := by
  rw [getNextHop_of_clean hclean]
  cases hnd : s.adjList[dest]? with
  | none => exact ⟨0, rfl⟩
  | some nd =>
    have hnlt : ¬ nd.distance < maxDistance := fun hlt =>
      hno ⟨nd.distance, (hc.reached dest nd hnd hlt).1⟩
    exact ⟨nd.nextHop, by simp [(hc.unreached dest nd hnd hnlt).1]⟩

end

/-- The vertices on the way of a packet are nodes of the topology. -/
theorem route_mem_adj {adj : AdjList} {next : NodeId → Option NodeId} {d u : NodeId}
    {path : List NodeId} {total : Nat} (h : Route (Edge adj) next d u path total)
    (hu : u ∈ adj) : ∀ v ∈ path, v ∈ adj := by
  induction h with
  | arrived =>
    intro v hv
    rw [List.mem_singleton.mp hv]
    exact hu
  | hop _ _ he _ ih =>
    intro v hv
    rcases List.mem_cons.mp hv with rfl | hv
    · exact hu
    · exact ih he.1 v hv

/-- Stations that hold the same graph and compute their routes independently forward a
packet for `d` to `d` on a shortest way, without visiting a station twice. -/
theorem forwarding_correct (adj : AdjList) (hsize : adj.size ≤ 1024) (hw : WeightsIn adj)
    (station : NodeId → Station) (hme : ∀ u, (station u).myNodeId = u)
    (top : NodeId → RTopology) (hsame : ∀ u ∈ adj, SameWeights adj (top u).adjList)
    (now : NodeId → AbsTime) (hvalid : ∀ u ∈ adj, Unexpired (now u) (top u).adjList) :
    ∃ top' : NodeId → RTopology,
      (∀ u ∈ adj, (top u).updateTopology (station u) (now u) = .ok (top' u)) ∧
      ∀ (later : NodeId → AbsTime) (s d : NodeId), s ∈ adj → d ≠ s →
        ((∃ c, Walk (Edge adj) s d c) →
          ∃ path, Route (Edge adj) (fun u => hopTo (station u) (later u) (top' u) d) d s path
              ((top' s).adjList.distanceOf d) ∧
            path.Nodup ∧ path.length - 1 ≤ adj.size - 1) ∧
        ((¬ ∃ c, Walk (Edge adj) s d c) →
          ∃ hop, (top' s).getNextHop (station s) (later s) d = .ok (top' s, hop, false)) := by
  -- every station computes its routes
  have hupdate : ∀ u, ∃ s', u ∈ adj → (top u).updateTopology (station u) (now u) = .ok s' ∧
      s'.dirty = false ∧ RoutesCorrect u (top u).adjList s'.adjList := by
    intro u
    by_cases hu : u ∈ adj
    · have hs := hsame u hu
      obtain ⟨s', h⟩ := updateTopology_correct (station u)
        (by rw [hme]; exact (hs.mem_iff u).mp hu) (hs.size ▸ hsize) (hs.weightsIn hw) (hvalid u hu)
      rw [hme] at h
      exact ⟨s', fun _ => h⟩
    · exact ⟨top u, fun h => absurd h hu⟩
  choose top' htop using hupdate
  refine ⟨top', fun u hu => (htop u hu).1, fun later s d hs hds => ?_⟩
  have hpos : ∀ u v c, Edge adj u v c → 0 < c := fun u v c he => (he.weight hw).1
  have hreport : ∀ u ∈ adj, ∀ n, d ≠ u → IsDist (Edge adj) u d n →
      (top' u).adjList.distanceOf d = n ∧ ∃ v c m, hopTo (station u) (later u) (top' u) d = some v ∧
        Edge adj u v c ∧ IsDist (Edge adj) v d m ∧ n = c + m := by
    intro u hu n hne hn
    obtain ⟨-, hclean, hcorrect⟩ := htop u hu
    have hmy : (station u).myNodeId ∈ (top u).adjList := by
      rw [hme]
      exact ((hsame u hu).mem_iff u).mp hu
    have hroutes : RoutesCorrect (station u).myNodeId (top u).adjList (top' u).adjList := by
      rw [hme]
      exact hcorrect
    have := hroutes.hopTo_eq (n := n) hclean (later u) hmy (by rwa [hme])
      (by rwa [hme, (hsame u hu).edge])
    rwa [hme, (hsame u hu).edge] at this
  constructor
  · rintro ⟨c, hwalk⟩
    obtain ⟨n, hn⟩ := exists_isDist hwalk
    obtain ⟨path, hroute, hnd, -⟩ := exists_route
      (fun u => hopTo (station u) (later u) (top' u) d) (d := d) hpos
      (fun u m hud hm => by
        have hu : u ∈ adj := by
          cases hm.1 with
          | nil => exact absurd rfl hud
          | cons he _ => exact he.source_mem
        exact (hreport u hu m (Ne.symm hud) hm).2) n s hn
    refine ⟨path, (hreport s hs n hds hn).1.symm ▸ hroute, hnd, ?_⟩
    have hsub : path ⊆ adj.keys := fun v hv => by
      rw [ExtTreeMap.mem_keys]
      exact route_mem_adj hroute hs v hv
    have hlen := (hnd.subperm hsub).length_le
    rw [ExtTreeMap.length_keys] at hlen
    omega
  · intro hno
    obtain ⟨-, hclean, hcorrect⟩ := htop s hs
    have hroutes : RoutesCorrect (station s).myNodeId (top s).adjList (top' s).adjList := by
      rw [hme]
      exact hcorrect
    refine hroutes.getNextHop_unreachable hclean (later s) ?_
    rwa [hme, (hsame s hs).edge]

/-- The network of the triangle forwards a packet from station 1 to station 3. -/
theorem forwarding_correct_triangle :
    ∃ top' : NodeId → RTopology, ∃ path,
      Route (Edge triangle)
        (fun u => hopTo (Station.hopCount u) 0 (top' u) 3) 3 1 path
        ((top' 1).adjList.distanceOf 3) ∧ path.Nodup := by
  obtain ⟨top', -, h⟩ := forwarding_correct triangle (by decide +kernel)
    (weightsIn_of_toList (by decide +kernel)) Station.hopCount (fun _ => rfl)
    (fun _ => { adjList := triangle }) (fun _ _ _ => rfl) (fun _ => 0)
    (fun _ _ => unexpired_of_toList (by decide +kernel))
  have hwalk : Walk (Edge triangle) 1 3 9 :=
    .cons (v := 3) ⟨by decide +kernel, { neighbor := 3, metricWeight := 9 }, by decide +kernel,
      rfl, rfl⟩ (.nil 3)
  obtain ⟨path, hroute, hnd, -⟩ := (h (fun _ => 0) 1 3 (by decide +kernel) (by decide)).1 ⟨9, hwalk⟩
  exact ⟨top', path, hroute, hnd⟩

end Awds.Proofs
