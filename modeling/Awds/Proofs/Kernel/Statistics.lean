import Awds.Kernel.Packets
import Awds.Proofs.Routing.Flood
import Awds.Routing.Unicast

/-!
# `Awds.Proofs.Kernel.Statistics`: the packet counters of the kernel module

`awds_count_packet` reads the header of a packet with offsets of its own. `tally` is what the
counters should be: the numbers of packets by `BasePacket::getType` and
`Flood::getFloodType`. A packet counts for itself (`awdsCountPacket_eq_plus`), so the two
agree on a sequence if they agree on every packet, and `Countable` says when that is
(`count_single_iff`): the module compares the first byte with the types as a whole, and it
looks for the flood type one byte behind `Flood::OffsetFloodType`.
-/

set_option autoImplicit false

namespace Awds.Proofs

open Awds.Lib Awds.Kernel AwdsPacketStatistic

/-- A packet of the daemon as the module receives it. -/
def skbOf (p : BasePacket) : SkBuff where
  protocol := ethPAwds
  dev := 0
  ethDest := []
  ethSrc := []
  data := p.buffer
  len := p.size

/-- The packets of a sequence for which a test holds, as a counter. -/
def counter (test : BasePacket → Bool) (ps : List BasePacket) : UInt32 :=
  UInt32.ofNat (ps.countP test)

/-- A flood packet of the flood type `t`. -/
def isFlood (t : Int) (p : BasePacket) : Bool :=
  decide (p.getType = .flood) && decide (Flood.getFloodType p = t)

/-- The counters that the headers of the packets ask for. -/
def tally (ps : List BasePacket) : AwdsPacketStatistic where
  rxTotalPackets := counter (fun _ => true) ps
  rxTotalUnicast := counter (fun p => p.getType = .unicast) ps
  rxTotalBeacon := counter (fun p => p.getType = .beacon) ps
  rxTotalFlood := counter (fun p => p.getType = .flood) ps
  rxTotalForeward := counter (fun p => p.getType = .forward) ps
  rxFloodTopo := counter (isFlood 0) ps
  rxFloodMcast := counter (isFlood 1) ps
  rxFloodPrivate := counter (isFlood 2) ps

/-- The counters of the module behind a sequence of packets. -/
def counted (ps : List BasePacket) : AwdsPacketStatistic :=
  ps.foldl (fun s p => s.awdsCountPacket (skbOf p)) {}

/-- The counter of flood packets that a byte stands for: 3 if there is none. -/
def floodCounter (b : UInt8) : UInt8 := if b < 3 then b else 3

/-- The module counts the packet as its header says: the packet has the nine bytes that are
asked for, its control bits are clear, and if it is a flood packet the byte that the module
reads stands for the same counter as the flood type. -/
def Countable (p : BasePacket) : Prop :=
  9 ≤ p.size ∧ p.buffer 0 < 4 ∧ (p.buffer 0 = packetFlood →
    (if awdsFloodtypeOffset ≤ p.size then floodCounter (p.buffer awdsFloodtypeOffset) else 3)
      = floodCounter (p.buffer Flood.offsetFloodType))

/-! ### Adding counters -/

/-- The sums of the counters. -/
def plus (s t : AwdsPacketStatistic) : AwdsPacketStatistic where
  rxTotalPackets := s.rxTotalPackets + t.rxTotalPackets
  rxTotalUnicast := s.rxTotalUnicast + t.rxTotalUnicast
  rxTotalBeacon := s.rxTotalBeacon + t.rxTotalBeacon
  rxTotalFlood := s.rxTotalFlood + t.rxTotalFlood
  rxTotalForeward := s.rxTotalForeward + t.rxTotalForeward
  rxLocalUnicast := s.rxLocalUnicast + t.rxLocalUnicast
  rxForwardedUnicast := s.rxForwardedUnicast + t.rxForwardedUnicast
  rxFloodTopo := s.rxFloodTopo + t.rxFloodTopo
  rxFloodMcast := s.rxFloodMcast + t.rxFloodMcast
  rxFloodPrivate := s.rxFloodPrivate + t.rxFloodPrivate

/-- Adding the same counters on the left can be undone, since the counters of 32 bits wrap. -/
theorem plus_right_inj (s t t' : AwdsPacketStatistic) : plus s t = plus s t' ↔ t = t' := by
  constructor
  · intro h
    simp only [plus, AwdsPacketStatistic.mk.injEq, UInt32.add_right_inj] at h
    cases t
    cases t'
    simpa using h
  · rintro rfl
    rfl

/-- What a flood packet adds does not depend on the counters so far. -/
theorem countFlood_eq_plus (s : AwdsPacketStatistic) (skb : SkBuff) :
    s.countFlood skb = plus s (countFlood {} skb) := by
  unfold countFlood plus
  split
  · dsimp only
    split
    · simp
    · split
      · simp
      · split <;> simp
  · simp

/-- A packet counts for itself. -/
theorem awdsCountPacket_eq_plus (s : AwdsPacketStatistic) (skb : SkBuff) :
    s.awdsCountPacket skb = plus s (awdsCountPacket {} skb) := by
  unfold awdsCountPacket
  split
  · simp [plus]
  · dsimp only
    split
    · simp [plus]
    · split
      · rw [countFlood_eq_plus, countFlood_eq_plus (s := { ({} : AwdsPacketStatistic) with
          rxTotalPackets := 0 + 1, rxTotalFlood := 0 + 1 })]
        simp [plus, UInt32.add_assoc]
      · split
        · simp [plus]
        · split <;> simp [plus]

/-- A counter of two sequences is the sum of their counters, modulo 2^32. -/
theorem counter_append (test : BasePacket → Bool) (ps qs : List BasePacket) :
    counter test (ps ++ qs) = counter test ps + counter test qs := by
  unfold counter
  rw [List.countP_append, UInt32.ofNat_add]

/-- The same for all counters together. -/
theorem tally_append (ps qs : List BasePacket) : tally (ps ++ qs) = plus (tally ps) (tally qs) := by
  simp [tally, plus, counter_append]

/-! ### One packet -/

section
variable {p : BasePacket}

/-- A single packet adds one to the counter or nothing. -/
theorem counter_single (test : BasePacket → Bool) (p : BasePacket) :
    counter test [p] = if test p then 1 else 0 := by
  unfold counter
  rw [List.countP_singleton]
  split <;> rfl

/-- What the module does with a packet that is long enough, by its first byte. -/
theorem count_single (hlen : 9 ≤ p.size) :
    awdsCountPacket {} (skbOf p) =
      if p.buffer 0 = 0 then { rxTotalPackets := 1, rxTotalBeacon := 1 }
      else if p.buffer 0 = 1 then
        countFlood { rxTotalPackets := 1, rxTotalFlood := 1 } (skbOf p)
      else if p.buffer 0 = 2 then { rxTotalPackets := 1, rxTotalUnicast := 1 }
      else if p.buffer 0 = 3 then { rxTotalPackets := 1, rxTotalForeward := 1 }
      else { rxTotalPackets := 1 } := by
  have hlong : ¬ (skbOf p).len < ethAlen + 3 := Nat.not_lt.mpr hlen
  unfold awdsCountPacket
  rw [if_neg hlong]
  rfl

/-- The flood type of a packet stands for the same counter as its byte. -/
theorem getFloodType_eq_iff (p : BasePacket) (t : UInt8) (ht : t < 3) :
    Flood.getFloodType p = t.toNat ↔ p.buffer Flood.offsetFloodType = t := by
  have hsmall : t.toNat < 3 := UInt8.lt_iff_toNat_lt.mp ht
  unfold Flood.getFloodType signedByte
  constructor
  · intro h
    apply UInt8.toNat_inj.mp
    have := (p.buffer Flood.offsetFloodType).toNat_lt
    split at h <;> omega
  · intro h
    rw [h, if_pos (by omega)]

/-- The counters of a flood packet, by the counter its type stands for. -/
def floodMark (c : UInt8) : AwdsPacketStatistic where
  rxTotalPackets := 1
  rxTotalFlood := 1
  rxFloodTopo := if c = 0 then 1 else 0
  rxFloodMcast := if c = 1 then 1 else 0
  rxFloodPrivate := if c = 2 then 1 else 0

/-- The three types that are counted have a counter each. -/
theorem floodCounter_lt_iff (b t : UInt8) (ht : t < 3) : floodCounter b = t ↔ b = t := by
  unfold floodCounter
  split
  · exact Iff.rfl
  · rename_i hb
    constructor
    · rintro rfl
      exact absurd ht (by decide)
    · rintro rfl
      exact absurd ht hb

/-- Different counters lead to different marks. -/
theorem floodMark_inj {c d : UInt8} (hc : c ≤ 3) (hd : d ≤ 3) :
    floodMark c = floodMark d ↔ c = d := by
  have hcases : ∀ x : UInt8, x ≤ 3 → x = 0 ∨ x = 1 ∨ x = 2 ∨ x = 3 := by decide +kernel
  constructor
  · intro h
    rcases hcases c hc with rfl | rfl | rfl | rfl <;>
      rcases hcases d hd with rfl | rfl | rfl | rfl <;>
      first | rfl | exact absurd h (by decide)
  · rintro rfl
    rfl

/-- Any other type goes to the fourth counter. -/
theorem floodCounter_of_ne {b : UInt8} (h0 : b ≠ 0) (h1 : b ≠ 1) (h2 : b ≠ 2) :
    floodCounter b = 3 := by
  have hsmall : ∀ x : UInt8, x < 3 → x = 0 ∨ x = 1 ∨ x = 2 := by decide +kernel
  refine if_neg fun hb => ?_
  rcases hsmall b hb with h | h | h
  · exact h0 h
  · exact h1 h
  · exact h2 h

/-- The tally of a flood packet has one mark. -/
theorem tally_flood (h : p.getType = .flood) :
    tally [p] = floodMark (floodCounter (p.buffer Flood.offsetFloodType)) := by
  have htopo : Flood.getFloodType p = 0 ↔ _ := getFloodType_eq_iff p 0 (by decide)
  have hmcast : Flood.getFloodType p = 1 ↔ _ := getFloodType_eq_iff p 1 (by decide)
  have hpriv : Flood.getFloodType p = 2 ↔ _ := getFloodType_eq_iff p 2 (by decide)
  simp [tally, floodMark, counter_single, isFlood, h, floodCounter_lt_iff, htopo, hmcast, hpriv]

/-- The counter that the module raises for a flood packet. -/
theorem countFlood_flood :
    countFlood { rxTotalPackets := 1, rxTotalFlood := 1 } (skbOf p) =
      floodMark (if awdsFloodtypeOffset ≤ p.size
        then floodCounter (p.buffer awdsFloodtypeOffset) else 3) := by
  unfold countFlood
  by_cases hlen : awdsFloodtypeOffset ≤ p.size
  · rw [if_pos (show (skbOf p).len ≥ awdsFloodtypeOffset from hlen), if_pos hlen]
    show (if p.buffer 17 = 0 then _ else if p.buffer 17 = 1 then _ else if p.buffer 17 = 2 then _
      else _) = floodMark (floodCounter (p.buffer 17))
    by_cases h0 : p.buffer 17 = 0
    · rw [h0]
      rfl
    by_cases h1 : p.buffer 17 = 1
    · rw [h1]
      rfl
    by_cases h2 : p.buffer 17 = 2
    · rw [h2]
      rfl
    rw [if_neg h0, if_neg h1, if_neg h2, floodCounter_of_ne h0 h1 h2]
    rfl
  · rw [if_neg (show ¬ (skbOf p).len ≥ awdsFloodtypeOffset from hlen), if_neg hlen]
    rfl

/-- There are four counters. -/
theorem floodCounter_le (b : UInt8) : floodCounter b ≤ 3 := by
  unfold floodCounter
  split
  · rename_i hb
    exact UInt8.le_of_lt hb
  · exact UInt8.le_refl 3

/-- The type of a packet by its first byte. -/
theorem getType_of_eq (b : UInt8) (hb : p.buffer 0 = b) :
    p.getType = match (b &&& 3).toNat with
      | 0 => .beacon
      | 1 => .flood
      | 2 => .unicast
      | _ => .forward := by
  subst hb
  rfl

/-- A packet of another type than a flood packet is countable. -/
theorem countable_of_ne {b : UInt8} (hlen : 9 ≤ p.size) (hb : p.buffer 0 = b) (hlt : b < 4)
    (hne : b ≠ packetFlood) : Countable p := by
  subst hb
  exact ⟨hlen, hlt, fun hf => absurd hf hne⟩

/-- The module counts a single packet as its header asks exactly if the packet is
countable. -/
theorem count_single_iff : awdsCountPacket {} (skbOf p) = tally [p] ↔ Countable p := by
  by_cases hlen : 9 ≤ p.size
  · rw [count_single hlen]
    -- The type byte is one of the four that the module counts, or it has control bits.
    have hbyte : ∀ b : UInt8, b = 0 ∨ b = 1 ∨ b = 2 ∨ b = 3 ∨ ¬ b < 4 := by decide +kernel
    rcases hbyte (p.buffer 0) with h | h | h | h | h
    · have hct : Countable p := countable_of_ne hlen h (by decide) (by decide)
      rw [if_pos h, iff_true_right hct]
      simp [tally, counter_single, isFlood, getType_of_eq 0 h]
    · -- Only a flood packet depends on a second byte.
      have htype : p.getType = .flood := getType_of_eq 1 h
      rw [if_neg (by rw [h]; decide), if_pos h, countFlood_flood, tally_flood htype,
        floodMark_inj _ (floodCounter_le _)]
      · constructor
        · exact fun heq => ⟨hlen, by rw [h]; decide, fun _ => heq⟩
        · exact fun hct => hct.2.2 h
      · split
        · exact floodCounter_le _
        · exact UInt8.le_refl 3
    · have hct : Countable p := countable_of_ne hlen h (by decide) (by decide)
      rw [if_neg (by rw [h]; decide), if_neg (by rw [h]; decide), if_pos h, iff_true_right hct]
      simp [tally, counter_single, isFlood, getType_of_eq 2 h]
    · have hct : Countable p := countable_of_ne hlen h (by decide) (by decide)
      rw [if_neg (by rw [h]; decide), if_neg (by rw [h]; decide), if_neg (by rw [h]; decide),
        if_pos h, iff_true_right hct]
      simp [tally, counter_single, isFlood, getType_of_eq 3 h]
    · -- a packet with control bits is of no type for the module, and of one for the daemon
      have hne : ∀ t : UInt8, t < 4 → p.buffer 0 ≠ t := fun t ht heq => h (heq ▸ ht)
      rw [if_neg (hne 0 (by decide)), if_neg (hne 1 (by decide)), if_neg (hne 2 (by decide)),
        if_neg (hne 3 (by decide)), iff_false_right fun hct => h hct.2.1]
      intro heq
      simp only [tally, counter_single, AwdsPacketStatistic.mk.injEq] at heq
      obtain ⟨-, hu, hb, hf, hw, -⟩ := heq
      cases ht : p.getType with
      | beacon => simp [ht] at hb
      | flood => simp [ht] at hf
      | unicast => simp [ht] at hu
      | forward => simp [ht] at hw
  · -- The packet is too short to be counted at all.
    have hshort : (skbOf p).len < ethAlen + 3 := Nat.lt_of_not_le hlen
    unfold awdsCountPacket
    rw [if_pos hshort, iff_false_right fun hct => hlen hct.1]
    intro heq
    have htotal := congrArg rxTotalPackets heq
    simp [tally, counter_single] at htotal

end

/-! ### Every sequence -/

section
variable {ps : List BasePacket}

/-- One more packet adds its counters to those behind the sequence. -/
theorem counted_snoc (ps : List BasePacket) (p : BasePacket) :
    counted (ps ++ [p]) = plus (counted ps) (awdsCountPacket {} (skbOf p)) := by
  unfold counted
  rw [List.foldl_append]
  exact awdsCountPacket_eq_plus _ _

/-- Sequences of countable packets are counted as their headers say. The induction goes from the
end, as the packets arrive. -/
theorem counted_eq_tally (h : ∀ p ∈ ps, Countable p) : counted ps = tally ps := by
  induction ps using List.reverseRecOn with
  | nil => rfl
  | append_singleton ps p ih =>
    have hp : Countable p := h p (by simp)
    rw [counted_snoc, tally_append, ih fun q hq => h q (by simp [hq]), count_single_iff.mpr hp]

/-- A counter that has not wrapped. -/
theorem toNat_counter (hfew : ps.length < 2 ^ 32) (test : BasePacket → Bool) :
    (counter test ps).toNat = ps.countP test := by
  have hle := List.countP_le_length (p := test) (l := ps)
  exact UInt32.toNat_ofNat_of_lt' (hle.trans_lt hfew)

/-- Every packet is of one of the four types. -/
theorem countP_types (ps : List BasePacket) :
    ps.countP (fun p => decide (p.getType = .beacon))
      + ps.countP (fun p => decide (p.getType = .flood))
      + ps.countP (fun p => decide (p.getType = .unicast))
      + ps.countP (fun p => decide (p.getType = .forward)) = ps.length := by
  induction ps with
  | nil => rfl
  | cons p ps ih =>
    simp only [List.countP_cons, List.length_cons]
    cases hp : p.getType <;> simp <;> omega

/-- If every packet of a sequence of fewer than 2^32 packets is countable, every counter of
the module is the number of the packets of its type, the counters of the types add up to the
number of all packets, and the counters of the flood types are right. The next packet keeps
the counters right exactly if it is countable. -/
theorem statistics_right (hfew : ps.length < 2 ^ 32) (h : ∀ p ∈ ps, Countable p) :
    (counted ps).rxTotalBeacon.toNat = ps.countP (fun p => decide (p.getType = .beacon)) ∧
    (counted ps).rxTotalFlood.toNat = ps.countP (fun p => decide (p.getType = .flood)) ∧
    (counted ps).rxTotalUnicast.toNat = ps.countP (fun p => decide (p.getType = .unicast)) ∧
    (counted ps).rxTotalForeward.toNat = ps.countP (fun p => decide (p.getType = .forward)) ∧
    (counted ps).rxTotalBeacon.toNat + (counted ps).rxTotalFlood.toNat
      + (counted ps).rxTotalUnicast.toNat + (counted ps).rxTotalForeward.toNat
      = (counted ps).rxTotalPackets.toNat ∧
    (counted ps).rxFloodTopo.toNat = ps.countP (isFlood 0) ∧
    (counted ps).rxFloodMcast.toNat = ps.countP (isFlood 1) ∧
    (counted ps).rxFloodPrivate.toNat = ps.countP (isFlood 2) ∧
    ∀ p, counted (ps ++ [p]) = tally (ps ++ [p]) ↔ Countable p := by
  rw [counted_eq_tally h]
  have hcount := toNat_counter hfew
  refine ⟨hcount _, hcount _, hcount _, hcount _, ?_, hcount _, hcount _, hcount _, fun p => ?_⟩
  · simp only [tally, hcount]
    rw [countP_types]
    simp
  · rw [counted_snoc, tally_append, counted_eq_tally h, plus_right_inj]
    exact count_single_iff

/-- A new unicast packet of station 1 with a frame of six bytes. -/
def plainUnicast : BasePacket :=
  { ((pairRouting false).newUnicastPacket (pairHosts false) TapInterface.protoNr).2 with
    size := UnicastPacket.unicastPacketEnd + 6 }

/-- The counters behind two unicast packets. -/
theorem statistics_right_unicast :
    (counted [plainUnicast, plainUnicast]).rxTotalUnicast.toNat
      = [plainUnicast, plainUnicast].countP fun p => decide (p.getType = .unicast) := by
  have hp : Countable plainUnicast :=
    countable_of_ne (b := 2) (by decide) (by decide) (by decide) (by decide)
  exact (@statistics_right [plainUnicast, plainUnicast] (by decide) (by simp [hp])).2.2.1

/-- A broadcast packet of the tap interface with a frame for the multicast address
01:00:5e:00:00:01. -/
def multicastFrame : BasePacket :=
  { ((pairRouting false).newFloodPacket (pairHosts false) TapInterface.protoNr).2.write
      Flood.floodHeaderEnd [1, 0, 0x5e, 0, 0, 1, 2, 0, 0, 0, 0, 1, 8, 0] with
    size := Flood.floodHeaderEnd + 14 }

/-- The first byte of the frame is counted as the flood type, and a unicast packet with the
trace flag is counted as no unicast packet. -/
theorem statistics_wrong_multicast :
    ((counted [multicastFrame]).rxFloodMcast.toNat = 1 ∧
      [multicastFrame].countP (isFlood 1) = 0) ∧
    ((counted [SrcPacket.setTraceFlag plainUnicast true]).rxTotalUnicast.toNat = 0 ∧
      [SrcPacket.setTraceFlag plainUnicast true].countP
        (fun p => decide (p.getType = .unicast)) = 1) := by
  decide +kernel

end

end Awds.Proofs
