import Awds.Topology.MetricTables
import Awds.Proofs.Topology.Commute

/-!
# `Awds.Proofs.Topology.MetricTables`: the tables of the metrics behind an own packet

The protocol of the hooks is a refresh: with `addNode` for each neighbour that the packet lists,
the table would hold these neighbours, with the data it had for them (`tracksLinks_refresh`).

`feed` calls the `addNode` of `Metric`, which does nothing. So no entry is marked behind
`begin_update`, and `end_update` drops all of them (`feedWith_own`). The table agrees with the
packet only when the packet lists no neighbour (`metric_tables_track_iff`).

With an `addNode` that overrides that of `Metric` the calls of `feed` would still not do. They
are made for the new links alone, and all of them pass the neighbour that was read last
(`mem_mergeHooks_overriding`).
-/

set_option autoImplicit false

namespace Awds.Proofs

open Std (ExtTreeMap)
open Awds.Lib Awds.AdjList Awds.RTopology

/-! ### The hooks -/

/-- The table `t'` has the neighbours that the packet lists, with the data of `t` where `t` has
some. -/
structure TracksLinks {δ : Type} (p : BasePacket) (t t' : MarkTable NodeId δ) : Prop where
  listed : ∀ v, v ∈ t' ↔ Lists p v
  kept : ∀ v e, t[v]? = some e → Lists p v → t'[v]?.map Marked.data = some e.data

/-- The virtual functions of the three metrics. -/
def measuring (δ : Type) : MetricHooks (MarkTable NodeId δ) where
  beginUpdate := clearMarks
  endUpdate := sweep

/-- The same with an `addNode` that overrides that of `Metric`. -/
def overriding {δ : Type} (d : δ) : MetricHooks (MarkTable NodeId δ) :=
  { measuring δ with addNode := mark d }

section
variable {δ τ : Type} {t : MarkTable NodeId δ} {p : BasePacket}

/-- The three calls for the neighbours that the packet lists. -/
theorem tracksLinks_refresh (d : δ) (t : MarkTable NodeId δ) (p : BasePacket) :
    TracksLinks p t (sweep (((packetLinks p).map LinkQuality.neighbor).foldl (mark d)
      (clearMarks t))) := by
  have hmem : ∀ v, v ∈ (packetLinks p).map LinkQuality.neighbor ↔ Lists p v := fun v =>
    List.mem_map
  refine ⟨fun v => ?_, fun v e he hlists => ?_⟩
  · show v ∈ refresh d t _ ↔ Lists p v
    rw [mem_refresh, hmem]
  · show (refresh d t _)[v]?.map Marked.data = some e.data
    rw [getElem?_refresh, if_pos ((hmem v).mpr hlists), he]
    rfl

/-- No call of the merge reaches the table. -/
theorem mergeHooks_measuring (node : NodeId) (ops : List MergeOp) :
    ∀ t : MarkTable NodeId δ, mergeHooks (measuring δ) node t ops = t := by
  induction ops with
  | nil => exact fun t => rfl
  | cons op ops ih =>
    intro t
    -- `addNode` and `delNode` are those of `Metric`
    cases op with
    | kept new old => exact ih t
    | added new => exact ih t
    | removed old => exact ih t

/-- The calls of the merge mark at most the neighbour that was read last. -/
theorem marked_mergeHooks_overriding (d : δ) (node : NodeId) (ops : List MergeOp) :
    ∀ (t : MarkTable NodeId δ) (v : NodeId) (e : Marked δ),
      (∀ e, t[v]? = some e → e.active = true → v = node) →
      (mergeHooks (overriding d) node t ops)[v]? = some e → e.active = true → v = node := by
  induction ops with
  | nil => exact fun t v e ht he => ht e he
  | cons op ops ih =>
    intro t v e ht
    cases op with
    | kept new old => exact ih t v e ht
    | removed old => exact ih t v e ht
    | added new =>
      refine ih (mark d t node) v e fun e he hactive => ?_
      rw [getElem?_mark] at he
      by_cases hv : v = node
      · exact hv
      · rw [if_neg hv] at he
        exact ht e he hactive

/-- So overriding alone does not do: of all the neighbours only the last one is left. -/
theorem mem_mergeHooks_overriding (d : δ) (node : NodeId) (ops : List MergeOp)
    (t : MarkTable NodeId δ) {v : NodeId}
    (h : v ∈ sweep (mergeHooks (overriding d) node (clearMarks t) ops)) : v = node := by
  obtain ⟨e, he⟩ := Option.isSome_iff_exists.mp (ExtTreeMap.mem_iff_isSome_getElem?.mp h)
  rw [getElem?_sweep, Option.filter_eq_some_iff] at he
  refine marked_mergeHooks_overriding d node ops (clearMarks t) v e (fun e' he' hactive => ?_)
    he.1 he.2
  -- `begin_update` has cleared all marks
  rw [getElem?_clearMarks, Option.map_eq_some_iff] at he'
  obtain ⟨e0, -, rfl⟩ := he'
  cases hactive

/-! ### `feed` with the hooks -/

/-- A packet that is parsed to its end has as many links as it announces. -/
theorem length_parseLinks {buf : Buffer} :
    ∀ (n addr : Nat) (prev : Option NodeId) (links : List LinkQuality),
      parseLinks buf n addr prev = .ok links → links.length = n := by
  intro n
  induction n with
  | zero =>
    intro addr prev links h
    cases h
    rfl
  | succ n ih =>
    intro addr prev links h
    simp only [parseLinks] at h
    split at h
    · cases h
    split at h
    · cases h
    obtain ⟨rest, hrest, h⟩ := bind_eq_ok.mp h
    cases h
    rw [List.length_cons, ih _ _ _ hrest]

variable {hooks : MetricHooks τ} {st : Station} {now : AbsTime} {s s' : RTopology}
  {table table' : τ}

/-- The calls do not change what `feed` does with the topology. -/
theorem feedWith_map_fst (hooks : MetricHooks τ) (st : Station) (now : AbsTime) (s : RTopology)
    (p : BasePacket) (table : τ) :
    (s.feedWith hooks st now p table).map Prod.fst = s.feed st now p := by
  unfold feedWith feed
  split
  · rfl
  split
  · rfl
  simp only
  split
  · rfl
  split
  · rfl
  -- the run stops at the same step, or both go on
  cases parseLinks p.buffer (TopoPacket.getNumLinks p) TopoPacket.offsetLinks none with
  | error err => rfl
  | ok links =>
    simp only [bind, Except.bind]
    cases (s.getNodeEntry st now (SrcPacket.getSrc p)).mergeLinks st now
        (now + TopoPacket.getValidity p) p links with
    | error err => rfl
    | ok s1 =>
      simp only
      split
      · cases s1.updateTopology st now with
        | error err => rfl
        | ok s2 => rfl
      · rfl

/-- What an accepted own packet makes of the table. -/
theorem feedWith_own {p : BasePacket} (hown : SrcPacket.getSrc p = st.myNodeId)
    (hlocked : s.locked = false) (hp : SizeOk p)
    (h : s.feedWith hooks st now p table = .ok (s', table')) :
    (packetLinks p).length = TopoPacket.getNumLinks p ∧
      table' = hooks.endUpdate (mergeHooks hooks (lastRead (packetLinks p))
        (hooks.beginUpdate table) (mergeOps (packetLinks p)
          ((s.getNodeEntry st now st.myNodeId).adjList.linksOf st.myNodeId))) := by
  unfold feedWith at h
  rw [hlocked, if_neg (by simp), if_neg (not_lt.mpr hp.1)] at h
  simp only [hown, if_true] at h
  split at h
  · cases h
  rw [if_neg (not_lt.mpr hp.2)] at h
  obtain ⟨links, hlinks, h⟩ := bind_eq_ok.mp h
  rw [packetLinks_of_ok hlinks]
  obtain ⟨s1, -, h⟩ := bind_eq_ok.mp h
  refine ⟨length_parseLinks _ _ _ _ hlinks, ?_⟩
  split at h
  · obtain ⟨s2, -, h⟩ := bind_eq_ok.mp h
    cases h
    rfl
  · cases h
    rfl

/-- Nothing is left of the table of a measuring metric. -/
theorem feedWith_measuring {p : BasePacket} {t t' : MarkTable NodeId δ}
    (hown : SrcPacket.getSrc p = st.myNodeId) (hlocked : s.locked = false) (hp : SizeOk p)
    (h : s.feedWith (measuring δ) st now p t = .ok (s', t')) :
    (packetLinks p).length = TopoPacket.getNumLinks p ∧ t' = ∅ := by
  obtain ⟨hlength, ht'⟩ := feedWith_own hown hlocked hp h
  rw [mergeHooks_measuring] at ht'
  exact ⟨hlength, ht'.trans (sweep_clearMarks t)⟩

/-- The empty table tracks the packets without neighbours. -/
theorem tracksLinks_empty_iff : TracksLinks p t ∅ ↔ (packetLinks p).length = 0 := by
  have hempty : ∀ v, v ∉ (∅ : MarkTable NodeId δ) := fun v => ExtTreeMap.not_mem_empty
  constructor
  · intro htracks
    cases hlinks : packetLinks p with
    | nil => rfl
    | cons l ls =>
      have hlisted : Lists p l.neighbor := ⟨l, hlinks ▸ List.mem_cons_self, rfl⟩
      exact absurd ((htracks.listed _).mpr hlisted) (hempty _)
  · intro hlength
    have hnone : ∀ v, ¬ Lists p v := by
      rintro v ⟨l, hl, -⟩
      rw [List.eq_nil_of_length_eq_zero hlength] at hl
      cases hl
    exact ⟨fun v => iff_of_false (hempty v) (hnone v), fun v e _ hlists => absurd hlists (hnone v)⟩

/-- The tables behind an accepted own packet agree with it exactly when it lists no
neighbour. -/
theorem metric_tables_track_iff {p : BasePacket} (hown : SrcPacket.getSrc p = st.myNodeId)
    (hlocked : s.locked = false) (hp : SizeOk p) :
    (∀ s' rttData rttData',
      s.feedWith RTTMetric.hooks st now p rttData = .ok (s', rttData') →
        (TracksLinks p rttData rttData' ↔ TopoPacket.getNumLinks p = 0)) ∧
    (∀ s' nodes nodes',
      s.feedWith PktPair.hooks st now p nodes = .ok (s', nodes') →
        (TracksLinks p nodes nodes' ↔ TopoPacket.getNumLinks p = 0)) ∧
    ∀ s' ttData ttData',
      s.feedWith TTMetric.hooks st now p ttData = .ok (s', ttData') →
        (TracksLinks p ttData ttData' ↔ TopoPacket.getNumLinks p = 0) := by
  have htable : ∀ {δ : Type} (s' : RTopology) (t t' : MarkTable NodeId δ),
      s.feedWith (measuring δ) st now p t = .ok (s', t') →
        (TracksLinks p t t' ↔ TopoPacket.getNumLinks p = 0) := by
    intro δ s' t t' h
    obtain ⟨hlength, rfl⟩ := feedWith_measuring hown hlocked hp h
    rw [tracksLinks_empty_iff, hlength]
  exact ⟨htable, htable, htable⟩

end

/-! ### Two packets of station 1 -/

/-- Station 1 with the metric `RTTMetric`. -/
def rttStation : Station := { Station.hopCount 1 with metric := .rttMetric }

/-- Its table. The round trip to station 2 has been measured. -/
def measuredTable : RTTMetric.RTTData := (∅ : RTTMetric.RTTData).insert 2
  { data := { time := 5000000, lastsend := 70000000, lastrecv := 75000000 } }

/-- A packet without neighbours: the table is empty behind it, as it should be. -/
theorem metric_tables_track_alone :
    ∃ s' rttData', (init rttStation 0).feedWith RTTMetric.hooks rttStation 0 (topoOf 1 9000 [])
        measuredTable = .ok (s', rttData') ∧
      TracksLinks (topoOf 1 9000 []) measuredTable rttData' := by
  obtain ⟨⟨s', rttData'⟩, hfeed, -⟩ := exists_of_test
    ((init rttStation 0).feedWith RTTMetric.hooks rttStation 0 (topoOf 1 9000 []) measuredTable)
    (fun _ => true) (by decide +kernel)
  have htracks := (metric_tables_track_iff (by decide +kernel) rfl (by decide +kernel)).1
    s' measuredTable rttData' hfeed
  exact ⟨s', rttData', hfeed, htracks.mpr (by decide +kernel)⟩

/-- A packet that lists station 2: its measurement is lost. -/
theorem metric_table_loses_neighbor :
    ∃ s' rttData', (init rttStation 0).feedWith RTTMetric.hooks rttStation 0
        (topoOf 1 9000 [(2, 10)]) measuredTable = .ok (s', rttData') ∧
      (2 : NodeId) ∈ measuredTable ∧ Lists (topoOf 1 9000 [(2, 10)]) 2 ∧
      (2 : NodeId) ∉ rttData' ∧ ¬ TracksLinks (topoOf 1 9000 [(2, 10)]) measuredTable rttData' := by
  obtain ⟨⟨s', rttData'⟩, hfeed, htest⟩ := exists_of_test
    ((init rttStation 0).feedWith RTTMetric.hooks rttStation 0 (topoOf 1 9000 [(2, 10)])
      measuredTable) (fun r => decide ((2 : NodeId) ∉ r.2)) (by decide +kernel)
  have hgone : (2 : NodeId) ∉ rttData' := of_decide_eq_true htest
  have hlists : Lists (topoOf 1 9000 [(2, 10)]) 2 := by
    unfold Lists
    decide +kernel
  exact ⟨s', rttData', hfeed, by decide +kernel, hlists, hgone,
    fun htracks => hgone ((htracks.listed 2).mpr hlists)⟩

end Awds.Proofs
