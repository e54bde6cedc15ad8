import Awds.Proofs.Topology.Assertions
import Awds.Proofs.Topology.MergeWeights

/-!
# `Awds.Proofs.Topology.WeightRange`: the weights that `feed` calculates

Every quality that `feed` accepts is one of the 16-bit numbers from 1 on, whichever metric the
sender has installed. `EtxMetric` divides by the product of two factors, and a factor is
`32 - quality / 2047`: it is 0 from quality 65504 on. The other metrics do not divide.

`calculates` is the part of `feed` that calculates weights. `weights_calculated_iff` says when
it comes to its end, and that the weights behind it are in the range of `Metric::calculate`.
-/

set_option autoImplicit false

namespace Awds.Proofs

open Std (ExtTreeMap)
open Awds.Lib Awds.AdjList Awds.RTopology

/-! ### The metrics -/

/-- The metrics of the repository. -/
def InRepository (m : Metric) : Prop := SymmetricMetric.installed m ∨ m = .ttMetric

/-- The first quality for which a factor of the divisor of `EtxMetric` is 0. -/
abbrev etxLimit : Nat := 65504

/-- A factor of the divisor of `EtxMetric`, as a number. -/
theorem etxFactor_toNat (q : UInt16) :
    (32 - (q / (Metric.maxQuality / 32)).toUInt32).toNat = 32 - q.toNat / 2047 := by
  have hq := q.toNat_lt
  have hwidth : (Metric.maxQuality / 32).toNat = 2047 := by decide
  have hval : (q / (Metric.maxQuality / 32)).toUInt32.toNat = q.toNat / 2047 := by
    rw [UInt16.toNat_toUInt32, UInt16.toNat_div, hwidth]
  have hle : (q / (Metric.maxQuality / 32)).toUInt32 ≤ 32 := by
    rw [UInt32.le_iff_toNat_le, hval]
    show q.toNat / 2047 ≤ 32
    omega
  rw [UInt32.toNat_sub_of_le _ _ hle, hval]
  rfl

/-- `EtxMetric` has a result exactly for two qualities below the limit. -/
theorem etxMetric_ok_iff (f b : UInt16) :
    (∃ mw, Metric.etxMetric.myCalculate f b = .ok mw) ↔
      f.toNat < etxLimit ∧ b.toNat < etxLimit := by
  have hf := f.toNat_lt
  have hb := b.toNat_lt
  -- the product of two factors of at most 32 does not wrap
  have hprod : ((32 - (f / (Metric.maxQuality / 32)).toUInt32) *
      (32 - (b / (Metric.maxQuality / 32)).toUInt32)).toNat
        = (32 - f.toNat / 2047) * (32 - b.toNat / 2047) := by
    rw [UInt32.toNat_mul, etxFactor_toNat, etxFactor_toNat]
    refine Nat.mod_eq_of_lt ?_
    calc (32 - f.toNat / 2047) * (32 - b.toNat / 2047) ≤ 32 * 32 :=
          Nat.mul_le_mul (Nat.sub_le _ _) (Nat.sub_le _ _)
      _ < 2 ^ 32 := by decide
  have hzero : (32 - (f / (Metric.maxQuality / 32)).toUInt32) *
      (32 - (b / (Metric.maxQuality / 32)).toUInt32) = 0 ↔
        etxLimit ≤ f.toNat ∨ etxLimit ≤ b.toNat := by
    rw [← UInt32.toNat_inj, hprod, UInt32.toNat_zero, Nat.mul_eq_zero]
    unfold etxLimit
    omega
  simp only [Metric.etxMetric]
  split
  · rename_i h0
    have hlimit := hzero.mp h0
    simp only [reduceCtorEq, exists_false, false_iff]
    omega
  · rename_i h0
    have hlimit := mt hzero.mpr h0
    simp only [Except.ok.injEq, exists_eq', true_iff]
    omega

/-- The other metrics have a result for all qualities. -/
theorem myCalculate_ok_iff {m : Metric} (hm : InRepository m) (f b : UInt16) :
    (∃ mw, m.myCalculate f b = .ok mw) ↔
      (m = .etxMetric → f.toNat < etxLimit ∧ b.toNat < etxLimit) := by
  by_cases hetx : m = .etxMetric
  · subst hetx
    rw [etxMetric_ok_iff]
    exact ⟨fun h _ => h, fun h => h rfl⟩
  · refine iff_of_true ?_ fun h => absurd h hetx
    rcases hm with (rfl | rfl | rfl | rfl) | rfl
    · exact ⟨1, rfl⟩
    · exact absurd rfl hetx
    · exact ⟨_, rfl⟩
    · exact ⟨_, rfl⟩
    · exact ⟨_, rfl⟩

/-! ### The weights behind the merge -/

section
variable {st : Station} {now : AbsTime} {s s1 : RTopology} {p : BasePacket}

/-- The part of `feed` that calculates weights, behind the checks of the packet. -/
def calculates (st : Station) (now : AbsTime) (s : RTopology) (p : BasePacket) :
    Result RTopology :=
  (s.getNodeEntry st now (SrcPacket.getSrc p)).mergeLinks st now
    (now + TopoPacket.getValidity p) p (packetLinks p)

/-- `feed` calculates the weights of every packet that it accepts. -/
theorem feed_calculates (st : Station) (now : AbsTime) (hlocked : s.locked = false)
    (hp : WellFormed p) :
    s.feed st now p = (do
      let s ← calculates st now s p
      if s.dirty then s.updateTopology st now else .ok s) := by
  obtain ⟨links, hparse⟩ := hp.links
  rw [feed_run st now hlocked hp.size hp.valid, hparse, except_bind_ok, calculates,
    packetLinks_of_ok hparse]

/-- The weight is one of those that `Metric::calculate` is meant to give. -/
def InRange (w : UInt32) : Prop := 1 ≤ w.toNat ∧ w.toNat ≤ (2 ^ 32 - 1) / 1024

/-- The link `it` to `v` and the reverse link that is found for it have one weight in the
range. -/
def PairInRange (adj : AdjList) (it : LinkPtr) (v : NodeId) : Prop :=
  ∃ w, InRange w ∧ weightAt adj it = some w ∧
    ∀ q ∈ adj.findLink v it.owner, weightAt adj q = some w

/-- The quality that is combined with that of the link `l` of the packet. A link of the source to
itself is its own reverse link. -/
def combinedQuality (s : RTopology) (p : BasePacket) (l : LinkQuality) : Option UInt16 :=
  if l.neighbor = SrcPacket.getSrc p then some l.quality
  else foundQuality s.adjList l.neighbor (SrcPacket.getSrc p)

/-- No quality that is combined for the packet is one of those that `EtxMetric` does not
bear. -/
def QualitiesBelow (s : RTopology) (p : BasePacket) : Prop :=
  ∀ l ∈ packetLinks p, ∀ b, combinedQuality s p l = some b →
    l.quality.toNat < etxLimit ∧ b.toNat < etxLimit

/-- The quality of the reverse link is the one in front of `feed`. -/
theorem foundQuality_swapLinks (st : Station) (now newValidity : AbsTime) (s : RTopology)
    (hasc : AscendingLinks (packetLinks p)) {l : LinkQuality} (hl : l ∈ packetLinks p) :
    foundQuality ((s.getNodeEntry st now (SrcPacket.getSrc p)).swapLinks (SrcPacket.getSrc p)
      newValidity (packetLinks p)).adjList l.neighbor (SrcPacket.getSrc p)
      = combinedQuality s p l := by
  have hent := getNodeEntry_lookup st now s (SrcPacket.getSrc p)
  set s0 := s.getNodeEntry st now (SrcPacket.getSrc p)
  -- The source has the links of the packet.
  have hsource : (s0.swapLinks (SrcPacket.getSrc p) newValidity (packetLinks p)).adjList[
      SrcPacket.getSrc p]? = some (swappedEntry s0 newValidity (packetLinks p)
        (entryOf st now s.adjList (SrcPacket.getSrc p))) := by
    simp [swapLinks, modifyNode, hent, swappedEntry]
  unfold combinedQuality
  split
  · -- the new links ascend, so the search comes to the link itself
    rename_i hself
    obtain ⟨i, hi⟩ := List.mem_iff_getElem?.mp hl
    have hlinks : AscendingLinks (swappedEntry s0 newValidity (packetLinks p)
        (entryOf st now s.adjList (SrcPacket.getSrc p))).links := hasc
    have hfind := (findLinkQuality_eq_some_iff hlinks).mpr ⟨l, hi, rfl⟩
    rw [hself] at hfind ⊢
    have hptr : (s0.swapLinks (SrcPacket.getSrc p) newValidity (packetLinks p)).adjList.findLink
        (SrcPacket.getSrc p) (SrcPacket.getSrc p)
          = some ⟨SrcPacket.getSrc p, s0.nextBuf, i⟩ := by
      simp only [findLink, hsource, hfind]
      rfl
    have hlink : (s0.swapLinks (SrcPacket.getSrc p) newValidity (packetLinks p)).adjList.link?
        ⟨SrcPacket.getSrc p, s0.nextBuf, i⟩ = some l :=
      link?_eq_some_iff.mpr ⟨_, hsource, rfl, hi⟩
    rw [foundQuality, hptr, Option.bind_some, hlink]
    rfl
  · -- the entry of another node is the one in front of `feed`
    rename_i hne
    have hother : (s0.swapLinks (SrcPacket.getSrc p) newValidity (packetLinks p)).adjList[
        l.neighbor]? = s.adjList[l.neighbor]? := by
      simp only [swapLinks, modifyNode, getElem?_modifyAt, if_neg (Ne.symm hne)]
      rw [getNodeEntry_adjList, getElem?_insertAt, if_neg (Ne.symm hne)]
    -- So the search finds the same link in both.
    unfold foundQuality
    have hfind : (s0.swapLinks (SrcPacket.getSrc p) newValidity (packetLinks p)).adjList.findLink
        l.neighbor (SrcPacket.getSrc p) = s.adjList.findLink l.neighbor (SrcPacket.getSrc p) := by
      simp only [findLink, hother]
    rw [hfind]
    cases hq : s.adjList.findLink l.neighbor (SrcPacket.getSrc p) with
    | none => rfl
    | some q =>
      have howner := (link?_of_findLink hq).1
      rw [Option.bind_some, Option.bind_some, link?, link?, howner, hother]

/-- For every state and every packet that `feed` accepts: the weights are calculated without a
division by zero and are in the range, exactly if the metric is not `EtxMetric` or no combined
quality is 65504 or more. -/
theorem weights_calculated_iff (hm : InRepository st.metric) (hlocked : s.locked = false)
    (hp : WellFormed p) (now : AbsTime) :
    (∃ s1, calculates st now s p = .ok s1 ∧
      s.feed st now p = (if s1.dirty then s1.updateTopology st now else .ok s1) ∧
      ∀ i l, (packetLinks p)[i]? = some l →
        PairInRange s1.adjList ⟨SrcPacket.getSrc p, s.nextBuf, i⟩ l.neighbor) ↔
    (st.metric = .etxMetric → QualitiesBelow s p) := by
  obtain ⟨links, hparse⟩ := hp.links
  obtain ⟨hasc, -, hpos⟩ := parseLinks_ascending _ _ _ _ _ hparse
  rw [← packetLinks_of_ok hparse] at hasc hpos
  obtain ⟨hiff, hbehind⟩ := mergeLinks_weighs st now (now + TopoPacket.getValidity p)
    (getNodeEntry_lookup st now s (SrcPacket.getSrc p)) hasc
  -- the metric has its results exactly under the condition
  have hone : ∀ l ∈ packetLinks p, ((∃ w, foundWeight st.metric
        ((s.getNodeEntry st now (SrcPacket.getSrc p)).swapLinks (SrcPacket.getSrc p)
          (now + TopoPacket.getValidity p) (packetLinks p)).adjList (SrcPacket.getSrc p) l
            = .ok w) ↔ ∀ b, combinedQuality s p l = some b → st.metric = .etxMetric →
              l.quality.toNat < etxLimit ∧ b.toNat < etxLimit) := by
    intro l hl
    rw [foundWeight, foundQuality_swapLinks st now _ s hasc hl, linkWeight_ok_iff]
    exact forall₂_congr fun b _ => myCalculate_ok_iff hm l.quality b
  have hresults : (∃ s1, calculates st now s p = .ok s1) ↔
      (st.metric = .etxMetric → QualitiesBelow s p) := by
    rw [calculates, hiff]
    exact ⟨fun h hetx l hl b hb => (hone l hl).mp (h l hl) b hb hetx,
      fun h l hl => (hone l hl).mpr fun b hb hetx => h hetx l hl b hb⟩
  rw [← hresults]
  constructor
  · rintro ⟨s1, hrun, -⟩
    exact ⟨s1, hrun⟩
  · rintro ⟨s1, hrun⟩
    refine ⟨s1, hrun, ?_, fun i l hi => ?_⟩
    · rw [feed_calculates st now hlocked hp, hrun, except_bind_ok]
    · obtain ⟨w, hw, hown, hreverse⟩ := hbehind s1 hrun i l hi
      rw [(getNodeEntry_frame st now s _).2.2.2] at hown
      exact ⟨w, linkWeight_in (positive_of_installed hm) (hpos l (List.mem_of_getElem? hi)) hw,
        hown, hreverse⟩

end

/-! ### Station 1 with `EtxMetric` -/

/-- A station with `EtxMetric`. -/
def etxStation : Station := { Station.hopCount 1 with metric := .etxMetric }

/-- Station 1 hears from station 2 that the quality of its link 2 → 1 is 20. -/
def hearsTwo : Result RTopology :=
  (init etxStation 0).feed etxStation 0 (topoOf 2 5000 [(1, 20)])

/-- A run that ends with a division by zero. -/
def dividesByZero {α : Type} : Result α → Bool
  | .error .divisionByZero => true
  | _ => false

theorem eq_of_dividesByZero {α : Type} {x : Result α} (h : dividesByZero x = true) :
    x = .error .divisionByZero := by
  unfold dividesByZero at h
  split at h
  · rfl
  · cases h

/-- A packet whose links can be read is well-formed. -/
theorem wellFormed_of_isOk {p : BasePacket} (hsize : SizeOk p)
    (hvalid : 0 < TopoPacket.getValidity p)
    (h : (parseLinks p.buffer (TopoPacket.getNumLinks p) TopoPacket.offsetLinks none).isOk
      = true) : WellFormed p := by
  refine ⟨hsize, hvalid, ?_⟩
  cases hparse : parseLinks p.buffer (TopoPacket.getNumLinks p) TopoPacket.offsetLinks none with
  | error e =>
    rw [hparse] at h
    cases h
  | ok links => exact ⟨links, rfl⟩

/-- Station 1 announces the link 1 → 2 with the quality 30. -/
theorem weights_calculated_thirty :
    ∃ s s1, hearsTwo = .ok s ∧
      calculates etxStation 0 s (topoOf 1 9000 [(2, 30)]) = .ok s1 ∧
      s.feed etxStation 0 (topoOf 1 9000 [(2, 30)])
        = (if s1.dirty then s1.updateTopology etxStation 0 else .ok s1) ∧
      ∀ i l, (packetLinks (topoOf 1 9000 [(2, 30)]))[i]? = some l →
        PairInRange s1.adjList ⟨SrcPacket.getSrc (topoOf 1 9000 [(2, 30)]), s.nextBuf, i⟩
          l.neighbor := by
  obtain ⟨s, hs, htest⟩ := exists_of_test hearsTwo
    (fun s => !s.locked && (packetLinks (topoOf 1 9000 [(2, 30)])).all fun l =>
      (combinedQuality s (topoOf 1 9000 [(2, 30)]) l).any fun b =>
        decide (l.quality.toNat < etxLimit) && decide (b.toNat < etxLimit))
    (by decide +kernel)
  rw [Bool.and_eq_true, Bool.not_eq_true'] at htest
  have hbelow : QualitiesBelow s (topoOf 1 9000 [(2, 30)]) := by
    intro l hl b hb
    have hone := List.all_eq_true.mp htest.2 l hl
    rw [hb] at hone
    simpa using hone
  have hetx : InRepository etxStation.metric := .inl (.inr (.inl rfl))
  obtain ⟨s1, hrun⟩ := (weights_calculated_iff hetx htest.1
    (wellFormed_of_isOk (by decide +kernel) (by decide +kernel) (by decide +kernel)) 0).mpr
      fun _ => hbelow
  exact ⟨s, s1, hs, hrun⟩

/-- Station 1 announces the link 1 → 2 with the largest quality, the one that `RTTMetric` gives a
link it has not measured. -/
theorem weights_divide_by_zero :
    ∃ s, hearsTwo = .ok s ∧ s.locked = false ∧ WellFormed (topoOf 1 9000 [(2, 65535)]) ∧
      calculates etxStation 0 s (topoOf 1 9000 [(2, 65535)]) = .error .divisionByZero ∧
      s.feed etxStation 0 (topoOf 1 9000 [(2, 65535)]) = .error .divisionByZero := by
  obtain ⟨s, hs, htest⟩ := exists_of_test hearsTwo
    (fun s => !s.locked && dividesByZero (calculates etxStation 0 s (topoOf 1 9000 [(2, 65535)])))
    (by decide +kernel)
  rw [Bool.and_eq_true, Bool.not_eq_true'] at htest
  have hp : WellFormed (topoOf 1 9000 [(2, 65535)]) :=
    wellFormed_of_isOk (by decide +kernel) (by decide +kernel) (by decide +kernel)
  have hzero := eq_of_dividesByZero htest.2
  refine ⟨s, hs, htest.1, hp, hzero, ?_⟩
  rw [feed_calculates etxStation 0 htest.1 hp, hzero, except_bind_error]

end Awds.Proofs
