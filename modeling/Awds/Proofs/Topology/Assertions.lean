import Awds.Proofs.Topology.Rejection
import Awds.Proofs.Routing.TopoPacket

/-!
# `Awds.Proofs.Topology.Assertions`: topo packets of any content

A topo packet may hold any bytes. `feed` asserts what it needs of them: a validity that is not 0,
qualities that are not 0, and neighbours that ascend. The check of the order in the source
prints a message and truncates the list, but the assertion behind it measures that list.
`LinksOk` says in terms of the bytes which lists pass (`parseLinks_ok_iff`).

Behind the merge, `calcRoutes` asserts that the own node is there and that no weight is 0.
`Tolerates` is the condition for all of it, and `feed_returns` says that it is needed, and that
it is enough in every run without a packet that fails the second size check of `feed`.
-/

set_option autoImplicit false

namespace Awds.Proofs

open Std (ExtTreeMap)
open Awds.Lib Awds.AdjList Awds.RTopology

/-! ### The links of a packet -/

/-- The neighbour at an address of a packet. -/
def nodeAt (buf : Buffer) (addr : Nat) : NodeId := NodeId.fromArray (buf.read addr NodeId.size)

/-- The quality behind the neighbour at an address. -/
def qualityBehind (buf : Buffer) (addr : Nat) : UInt16 :=
  UInt16.ofNat (ofBigEndian (buf.read (addr + NodeId.size) 2))

/-- The `n` links from `addr` on have qualities, and their neighbours ascend. -/
structure LinksOk (buf : Buffer) (n addr : Nat) : Prop where
  quality : ∀ i < n, qualityBehind buf (addr + i * TopoPacket.linkSize) ≠ 0
  ascending : ∀ i, i + 1 < n → nodeAt buf (addr + i * TopoPacket.linkSize) <
    nodeAt buf (addr + (i + 1) * TopoPacket.linkSize)

section
variable {buf : Buffer} {n addr : Nat} {prev : Option NodeId}

/-- One turn of the loop that reads the links. -/
theorem parseLinks_succ_ok :
    (∃ links, parseLinks buf (n + 1) addr prev = .ok links) ↔
      qualityBehind buf addr ≠ 0 ∧ (∀ m ∈ prev, m < nodeAt buf addr) ∧
        ∃ links, parseLinks buf n (addr + TopoPacket.linkSize) (some (nodeAt buf addr)) =
          .ok links := by
  rw [parseLinks]
  split
  · -- No quality: the assertion fails.
    rename_i hq
    exact iff_of_false (fun h => by cases h.choose_spec) fun h => h.1 hq
  · rename_i hq
    split
    · -- The address is not larger than the one in front of it.
      rename_i hprev
      refine iff_of_false (fun h => by cases h.choose_spec) fun h => ?_
      obtain ⟨m, hm, hge⟩ := (Option.any_eq_true _ _).mp hprev
      exact absurd (of_decide_eq_true hge) (not_le.mpr (h.2.1 m hm))
    · -- The link is taken, and the rest is read behind it.
      rename_i hprev
      constructor
      · rintro ⟨links, h⟩
        obtain ⟨rest, hrest, -⟩ := bind_eq_ok.mp h
        refine ⟨hq, fun m hm => ?_, rest, hrest⟩
        rw [hm] at hprev
        have hlt : m < NodeId.fromArray (buf.read addr NodeId.size) := by simpa using hprev
        exact hlt
      · rintro ⟨-, -, rest, hrest⟩
        exact ⟨_, bind_eq_ok.mpr ⟨rest, hrest, rfl⟩⟩

/-- The first link and the ones behind it. -/
theorem linksOk_succ : LinksOk buf (n + 1) addr ↔
    qualityBehind buf addr ≠ 0 ∧
      (0 < n → nodeAt buf addr < nodeAt buf (addr + TopoPacket.linkSize)) ∧
      LinksOk buf n (addr + TopoPacket.linkSize) := by
  have hshift : ∀ i, addr + TopoPacket.linkSize + i * TopoPacket.linkSize =
      addr + (i + 1) * TopoPacket.linkSize := by
    intro i
    rw [Nat.succ_mul]
    omega
  -- The first two links are at these places.
  have hfirst : addr + 0 * TopoPacket.linkSize = addr := by omega
  have hsecond : addr + (0 + 1) * TopoPacket.linkSize = addr + TopoPacket.linkSize := by omega
  constructor
  · -- From the whole list to its first link and the rest.
    intro h
    refine ⟨?_, fun hn => ?_, fun i hi => ?_, fun i hi => ?_⟩
    · have := h.quality 0 (Nat.succ_pos n)
      rwa [hfirst] at this
    · have := h.ascending 0 (by omega)
      rwa [hfirst, hsecond] at this
    · rw [hshift]
      exact h.quality (i + 1) (by omega)
    · rw [hshift, hshift]
      exact h.ascending (i + 1) (by omega)
  · -- And back: the index says whether it is the first link.
    rintro ⟨hq, hlt, hrest⟩
    refine ⟨fun i hi => ?_, fun i hi => ?_⟩
    · cases i with
      | zero => rwa [hfirst]
      | succ i =>
        rw [← hshift]
        exact hrest.quality i (by omega)
    · cases i with
      | zero =>
        rw [hfirst, hsecond]
        exact hlt (by omega)
      | succ i =>
        rw [← hshift, ← hshift]
        exact hrest.ascending i (by omega)

/-- The lists that pass the assertions of the loop. The induction is on the number of links, for
any address and any neighbour in front of it. -/
theorem parseLinks_ok_iff : ∀ (n addr : Nat) (prev : Option NodeId),
    (∃ links, parseLinks buf n addr prev = .ok links) ↔
      (0 < n → ∀ m ∈ prev, m < nodeAt buf addr) ∧ LinksOk buf n addr := by
  intro n
  induction n with
  | zero =>
    intro addr prev
    refine iff_of_true ⟨[], rfl⟩
      ⟨fun h => absurd h (Nat.lt_irrefl 0), fun i hi => ?_, fun i hi => ?_⟩
    · exact absurd hi (Nat.not_lt_zero i)
    · exact absurd hi (Nat.not_lt_zero (i + 1))
  | succ n ih =>
    intro addr prev
    rw [parseLinks_succ_ok, ih, linksOk_succ]
    constructor
    · rintro ⟨hq, hprev, hlt, hrest⟩
      exact ⟨fun _ => hprev, hq, fun hn => hlt hn _ rfl, hrest⟩
    · rintro ⟨hprev, hq, hlt, hrest⟩
      refine ⟨hq, hprev (Nat.succ_pos n), fun hn m hm => ?_, hrest⟩
      cases hm
      exact hlt hn

end

/-! ### When `feed` returns -/

/-- The condition for `feed` to return on `p`. The packet is too short for its header; or its
validity is positive, and it is too short for its links, or its links are in order and the
topology is ready for them. -/
def Tolerates (st : Station) (now : AbsTime) (s : RTopology) (p : BasePacket) : Prop :=
  p.size < TopoPacket.offsetLinks + 1 ∨
    0 < TopoPacket.getValidity p ∧
      (p.size < TopoPacket.offsetLinks + TopoPacket.getNumLinks p * TopoPacket.linkSize ∨
        LinksOk p.buffer (TopoPacket.getNumLinks p) TopoPacket.offsetLinks ∧ Ready st now s p)

/-- A step that feeds no packet that fails the second size check. -/
def FeedsWhole (s : RTopology) (e : Event) : Prop :=
  ∀ p, e.op = .feed p → s.locked = true ∨ p.size < TopoPacket.offsetLinks + 1 ∨ SizeOk p

section
variable {st : Station} {now : AbsTime} {s s' : RTopology} {p : BasePacket}

/-- The packets that `feed` ignores can be left out of a run. -/
theorem reachable_feedsSized (h : Reachable st FeedsWhole s) :
    Reachable st (fun _ e => FeedsSized e) s := by
  obtain ⟨t, hrun⟩ := h
  refine ⟨t, ?_⟩
  induction hrun with
  | refl => exact .refl
  | @tail s s' _ hstep ih =>
    obtain ⟨⟨now, op⟩, hwhole, hexec⟩ := hstep
    by_cases hsized : FeedsSized ⟨now, op⟩
    · exact ih.tail ⟨⟨now, op⟩, hsized, hexec⟩
    · -- the event is a feed that is refused by the first checks
      unfold FeedsSized at hsized
      push Not at hsized
      obtain ⟨p, hop, hp⟩ := hsized
      cases hop
      have hearly : s.locked = true ∨ p.size < TopoPacket.offsetLinks + 1 := by
        rcases hwhole p rfl with hlocked | hshort | hsize
        · exact .inl hlocked
        · exact .inr hshort
        · exact absurd hsize hp
      have hexec : s.feed st now p = .ok s' := hexec
      rw [feed_malformed st now s hp, if_pos hearly] at hexec
      cases hexec
      exact ih

/-- A packet on which `feed` returns meets the condition. -/
theorem Tolerates.of_feed (hc : Consistent s.adjList) (hlocked : s.locked = false)
    (h : s.feed st now p = .ok s') : Tolerates st now s p := by
  by_cases hp : SizeOk p
  · rcases feed_cases hp h with ⟨hl, -⟩ | ⟨-, hval, links, s1, hparse, -, -⟩
    · rw [hlocked] at hl
      cases hl
    · exact .inr ⟨hval, .inr ⟨((parseLinks_ok_iff _ _ _).mp ⟨links, hparse⟩).2,
        .of_feed hc hlocked hp h⟩⟩
  · rw [feed_malformed st now s hp] at h
    split at h
    · rename_i hearly
      exact .inl (hearly.resolve_left (by rw [hlocked]; exact Bool.false_ne_true))
    · rename_i hearly
      have hheader := not_lt.mp (not_or.mp hearly).2
      split at h
      · cases h
      · rename_i hval
        exact .inr ⟨not_le.mp hval, .inl (not_le.mp fun hlinks => hp ⟨hheader, hlinks⟩)⟩

/-- `feed` returns on a packet that meets the condition. -/
theorem Tolerates.feed (hm : PositiveMetric st.metric) (hc : Consistent s.adjList)
    (hw : WeightsIn s.adjList) (hlocked : s.locked = false)
    (hsize : s.dirty = true ∨ hasNews s p = true → (nodesBehind s p).card ≤ 1024)
    (h : Tolerates st now s p) : ∃ s', s.feed st now p = .ok s' := by
  by_cases hp : SizeOk p
  · rcases h with hshort | ⟨hval, hshort | ⟨hlinks, hready⟩⟩
    · exact absurd hp.1 (not_le.mpr hshort)
    · exact absurd hp.2 (not_le.mpr hshort)
    · have hparse := (parseLinks_ok_iff _ _ none).mpr ⟨fun _ m hm => (by cases hm), hlinks⟩
      exact hready.feed hm hc hw hlocked ⟨hp, hval, hparse⟩ hsize
  · rw [feed_malformed st now s hp]
    split
    · exact ⟨s, rfl⟩
    · rename_i hearly
      have hval : 0 < TopoPacket.getValidity p :=
        (h.resolve_left fun hshort => hearly (.inr hshort)).1
      rw [if_neg (not_le.mpr hval)]
      exact ⟨_, rfl⟩

/-- In every run without a packet that fails the second size check, `feed` returns on a packet
only if the condition holds, and it returns if the condition holds and the graph has at most
1024 nodes when the routes are computed. -/
theorem feed_returns (hm : PositiveMetric st.metric) (hr : Reachable st FeedsWhole s)
    (hlocked : s.locked = false) (now : AbsTime) (p : BasePacket) :
    ((∃ s', s.feed st now p = .ok s') → Tolerates st now s p) ∧
      ((s.dirty = true ∨ hasNews s p = true → (nodesBehind s p).card ≤ 1024) →
        Tolerates st now s p → ∃ s', s.feed st now p = .ok s') := by
  obtain ⟨hc, hw⟩ := sound_of_reachable hm (reachable_feedsSized hr)
  constructor
  · rintro ⟨s', h⟩
    exact .of_feed hc hlocked h
  · intro hsize h
    exact h.feed hm hc hw hlocked hsize

end

/-! ### Packets of station 2 -/

/-- A packet that lists station 1 is fed to the station behind the run. -/
theorem feed_returns_mutualRun :
    ∃ s s', Reachable (.hopCount 1) FeedsWhole s ∧ s.locked = false ∧
      s.feed (.hopCount 1) 0 (topoOf 2 5000 [(1, 20), (7, 30)]) = .ok s' := by
  obtain ⟨s, hs, htest⟩ := exists_of_test
    (mutualRun.foldlM (exec (.hopCount 1)) (init (.hopCount 1) 0))
    (fun s => !s.locked && decide ((nodesBehind s (topoOf 2 5000 [(1, 20), (7, 30)])).card ≤ 1024))
    (by decide +kernel)
  rw [Bool.and_eq_true, Bool.not_eq_true', decide_eq_true_eq] at htest
  obtain ⟨hlocked, hcard⟩ := htest
  have hreach : Reachable (.hopCount 1) FeedsWhole s :=
    ⟨0, steps_of_events mutualRun _ s
      (fun e he _ p hop => .inr (.inr (feedsSized_mutualRun e he p hop))) hs⟩
  have hlists : Lists (topoOf 2 5000 [(1, 20), (7, 30)]) 1 := by
    unfold Lists
    decide +kernel
  have htolerates : Tolerates (.hopCount 1) 0 s (topoOf 2 5000 [(1, 20), (7, 30)]) := by
    refine .inr ⟨by decide +kernel, .inr ⟨⟨by decide +kernel, fun i hi => ?_⟩,
      fun _ _ _ _ => ⟨1, rfl⟩, fun _ => .inr (.inl hlists)⟩⟩
    -- there are two links
    have hn : TopoPacket.getNumLinks (topoOf 2 5000 [(1, 20), (7, 30)]) = 2 := by decide +kernel
    have hi : i = 0 := by omega
    subst hi
    decide +kernel
  obtain ⟨s', hs'⟩ := (feed_returns (positive_of_installed (.inl (.inl rfl))) hreach hlocked 0 _).2
    (fun _ => hcard) htolerates
  exact ⟨s, s', hreach, hlocked, hs'⟩

/-- Packets that end a station that has just been started: without a validity, without a
quality, with neighbours that descend, and with the same neighbour twice. -/
theorem feed_aborts :
    ∃ s, Reachable (.hopCount 1) FeedsWhole s ∧ s.locked = false ∧
      ∀ p ∈ [topoOf 2 0 [(1, 20)], topoOf 2 5000 [(1, 0)], topoOf 2 5000 [(7, 30), (1, 20)],
        topoOf 2 5000 [(1, 20), (1, 20)]], SizeOk p ∧
          s.feed (.hopCount 1) 0 p = .error .assertion := by
  refine ⟨init (.hopCount 1) 0, ⟨0, .refl⟩, rfl, fun p hp => ?_⟩
  have hall : [topoOf 2 0 [(1, 20)], topoOf 2 5000 [(1, 0)], topoOf 2 5000 [(7, 30), (1, 20)],
      topoOf 2 5000 [(1, 20), (1, 20)]].all (fun p => decide (SizeOk p) &&
        failsAssertion ((init (.hopCount 1) 0).feed (.hopCount 1) 0 p)) = true := by
    decide +kernel
  have htest := List.all_eq_true.mp hall p hp
  rw [Bool.and_eq_true, decide_eq_true_eq] at htest
  exact ⟨htest.1, eq_of_failsAssertion htest.2⟩

end Awds.Proofs
