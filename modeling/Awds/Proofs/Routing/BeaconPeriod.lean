import Awds.Proofs.Crypto.Blocks
import Awds.Proofs.Routing.BeaconLists
import Awds.Routing.Beacons
import Mathlib.Data.Int.ModEq

/-!
# `Awds.Proofs.Routing.BeaconPeriod`: the period of beacons

The shell command `beaconperiod set` accepts every `int` but 0.

* `catchesUp_iff`: the loop of `send_beacon` catches up with the event loop exactly if the period
  is positive or there is nothing to catch up with. With a negative period the time of the next
  beacon runs backwards.
* `periodKept_iff`: a neighbour decodes the period exactly if it is positive and has at most
  16 bits. Above that the validity of the link is computed from what is left of the period.
-/

set_option autoImplicit false

namespace Awds.Proofs

open Awds.Lib Awds.AwdsRouting Awds.BeaconRouting

variable {b b' b₁ b₂ : BeaconRouting} {argv : List (List UInt8)} {p : Int}

/-- A period that the command accepts is the period from then on. -/
theorem beaconPeriodCommand_setting (h : b.beaconPeriodCommand argv = (b', .setting p)) :
    b'.beaconPeriod = .ofMillis p ∧ p ≠ 0 := by
  unfold beaconPeriodCommand at h
  split at h
  · split at h <;> cases h
  · split at h
    · simp only at h
      split at h
      · cases h
      · rename_i hne
        cases h
        exact ⟨rfl, hne⟩
    · cases h
  · cases h

/-- The arguments of `beaconperiod set`. -/
def setPeriodArgs (ms : String) : List (List UInt8) :=
  [cStr "beaconperiod", cStr "set", cStr ms]

/-- The command accepts every number but 0. -/
theorem beaconPeriodCommand_set (b : BeaconRouting) (ms : String) (hp : atoi (cStr ms) = p)
    (hne : p ≠ 0) : b.beaconPeriodCommand (setPeriodArgs ms) =
      ({ b with beaconPeriod := .ofMillis p }, .setting p) := by
  simp [beaconPeriodCommand, setPeriodArgs, hp, hne]

/-- Station 1 when it has just been started. -/
def startedBeacons : BeaconRouting :=
  { toAwdsRouting := pairRouting false, nextBeacon := 1000000 }

/-- Station 1 with the period `ms`. -/
def beaconsEvery (ms : Int) : BeaconRouting :=
  { startedBeacons with beaconPeriod := .ofMillis ms }

/-! ### Catching up -/

/-- The loop of `send_beacon` ends with a time behind the one of the event, in the raster of the
period. -/
def CatchesUp (clock : Clock) (b : BeaconRouting) : Prop :=
  ∃ n next, b.catchUp clock n = some next ∧ clock.lastEventTime < next ∧
    next ≡ b.nextBeacon [ZMOD b.beaconPeriod]

/-- A positive period brings the next beacon closer to the time of the event with every turn. -/
theorem catchesUp_of_pos (clock : Clock) {d : Int} (hd : b.beaconPeriod = d) (hpos : 0 < d) :
    CatchesUp clock b := by
  have hstep : ∀ next : Int, next ≡ b.nextBeacon [ZMOD b.beaconPeriod] →
      decide (next ≤ clock.lastEventTime) = true →
      next + b.beaconPeriod ≡ b.nextBeacon [ZMOD b.beaconPeriod] ∧
        (clock.lastEventTime + 1 - (next + b.beaconPeriod)).toNat
          < (clock.lastEventTime + 1 - next).toNat := by
    intro next hnext hle
    have hlate : next ≤ (clock.lastEventTime : Int) := of_decide_eq_true hle
    refine ⟨?_, by rw [hd]; omega⟩
    have hadd := hnext.add (Int.modEq_zero_iff_dvd.mpr (dvd_refl b.beaconPeriod))
    rwa [add_zero] at hadd
  have hstart : b.nextBeacon ≡ b.nextBeacon [ZMOD b.beaconPeriod] := .refl _
  obtain ⟨n, next, h⟩ := exists_whileLoop
    (fun next : Int => (clock.lastEventTime + 1 - next).toNat) hstep hstart
  obtain ⟨hmod, hend⟩ := whileLoop_spec (fun next hnext hle => (hstep next hnext hle).1) hstart h
  exact ⟨n, next, h, by simpa using hend, hmod⟩

/-- With a negative period a loop that has begun does not end. -/
theorem catchUp_eq_none (clock : Clock) {d : Int} (hd : b.beaconPeriod = d) (hneg : d < 0)
    (hlate : b.nextBeacon ≤ clock.lastEventTime) (n : Nat) : b.catchUp clock n = none := by
  let late (next : Int) : Prop := next ≤ clock.lastEventTime
  have hcond : ∀ next : Int, late next → decide (next ≤ clock.lastEventTime) = true :=
    fun next hnext => decide_eq_true hnext
  have hstep : ∀ next : Int, late next → late (next + b.beaconPeriod) := by
    intro next hnext
    exact (add_le_of_nonpos_right (hd.trans_le hneg.le)).trans hnext
  exact whileLoop_eq_none hcond hstep n hlate

/-- For every period that the command accepts, every station that has this period and every time
of the event loop: the loop of `send_beacon` catches up exactly if the period is positive or the
event loop is not late. -/
theorem catchesUp_iff (hset : b.beaconPeriodCommand argv = (b', .setting p))
    (hperiod : b₁.beaconPeriod = b'.beaconPeriod) (clock : Clock) :
    CatchesUp clock b₁ ↔ 0 < p ∨ clock.lastEventTime < b₁.nextBeacon := by
  obtain ⟨hmillis, hne⟩ := beaconPeriodCommand_setting hset
  have hmillis' : b₁.beaconPeriod = p * 1000000 := hperiod.trans hmillis
  constructor
  · rintro ⟨n, next, h, -, -⟩
    by_contra hnot
    rw [not_or, not_lt, not_lt] at hnot
    rw [catchUp_eq_none clock hmillis' (by omega) hnot.2 n] at h
    cases h
  · intro h
    rcases h with hpos | hearly
    · exact catchesUp_of_pos clock hmillis' (by omega)
    · -- the loop has no turn
      exact ⟨1, b₁.nextBeacon, whileLoop_of_false 0 (by simpa using hearly), hearly, .refl _⟩

/-- With a period of 100 ms the loop catches up with an event loop that is a second late. -/
theorem catchesUp_second : CatchesUp ⟨1001000000, 0⟩ (beaconsEvery 100) :=
  (catchesUp_iff (beaconPeriodCommand_set startedBeacons "100" (p := 100) (by decide) (by decide))
    (show (beaconsEvery 100).beaconPeriod = _ from rfl) ⟨1001000000, 0⟩).mpr (.inl (by decide))

/-- `beaconperiod set -5` is accepted, and the next beacon never gets its time. -/
theorem period_backwards :
    startedBeacons.beaconPeriodCommand (setPeriodArgs "-5") = (beaconsEvery (-5), .setting (-5)) ∧
      (∀ n, (beaconsEvery (-5)).catchUp ⟨1000000, 0⟩ n = none) ∧
      ¬ CatchesUp ⟨1000000, 0⟩ (beaconsEvery (-5)) := by
  have hnone : ∀ n, (beaconsEvery (-5)).catchUp ⟨1000000, 0⟩ n = none :=
    catchUp_eq_none ⟨1000000, 0⟩ (d := -5000000) rfl (by decide) le_rfl
  refine ⟨beaconPeriodCommand_set _ "-5" (by decide) (by decide), hnone, ?_⟩
  rintro ⟨n, next, h, -, -⟩
  rw [hnone n] at h
  cases h

/-! ### The period on the air -/

/-- The period that is decoded: 16 bits of the number of milliseconds. -/
theorem getPeriod_setPeriod (q : BasePacket) (p : Int) :
    Beacon.getPeriod (Beacon.setPeriod q (.ofMillis p)) = .ofMillis (p % 2 ^ 16) := by
  have hdiv : Int.tdiv (Duration.ofMillis p) 1000000 = p :=
    Int.mul_tdiv_cancel p (by decide)
  have hread := Buffer.read_write_self q.buffer Beacon.offsetPeriod
    (toBigEndian 2 (p % 2 ^ 16).toNat)
  rw [length_toBigEndian] at hread
  unfold Beacon.getPeriod Beacon.setPeriod
  rw [hdiv, BasePacket.write_buffer, hread, ofBigEndian_toBigEndian_of_lt (by omega),
    Int.toNat_of_nonneg (by omega)]

/-- A beacon in front of its signature. -/
theorem unsignedBeacon_spec {host : Host} {q : BasePacket}
    (h : b.unsignedBeacon host = .ok (b₂, q)) :
    Beacon.offsetLNeigh ≤ q.size ∧
      ∃ q', q.buffer = (Beacon.setPeriod q' b.beaconPeriod).buffer := by
  obtain ⟨r, -, h⟩ := bind_eq_ok.mp h
  cases h
  refine ⟨?_, _, rfl⟩
  show Beacon.offsetLNeigh ≤ (Beacon.setNeigh r _).size
  rw [setNeigh_size]
  exact Nat.le_add_right _ _

/-- The signature of a beacon lies behind it. -/
theorem signBeacon_buffer {host : Host} (r : AwdsRouting) (q : BasePacket) {i : Nat}
    (hi : i < q.size) : (r.signBeacon host q).2.buffer i = q.buffer i := by
  unfold signBeacon
  split
  · rfl
  · exact sign_of_lt .nil hi

/-- The period that is decoded from a beacon with the same header. -/
theorem getPeriod_makeBeacon {host : Host} {q q' : BasePacket}
    (h : b.makeBeacon host = .ok (b₂, q))
    (hsame : ∀ i, i < Beacon.offsetLNeigh → q'.buffer i = q.buffer i)
    (hperiod : b.beaconPeriod = .ofMillis p) :
    Beacon.getPeriod q' = .ofMillis (p % 2 ^ 16) := by
  obtain ⟨⟨b₃, q₁⟩, hunsigned, h⟩ := bind_eq_ok.mp h
  obtain ⟨hsize, q₂, hbuffer⟩ := unsignedBeacon_spec hunsigned
  cases h
  rw [← getPeriod_setPeriod q₂, ← hperiod]
  unfold Beacon.getPeriod
  rw [← hbuffer]
  congr 3
  refine Buffer.read_congr fun i _ hi => ?_
  -- the period is in the header, in front of the list and of the signature
  have hheader : i < Beacon.offsetLNeigh := hi.trans (by decide)
  rw [hsame i hheader]
  exact signBeacon_buffer _ _ (hheader.trans_le hsize)

/-- A neighbour that hears the beacon `q` of the station knows its period, and the link stays
valid beyond the next beacon. -/
structure PeriodKept (b : BeaconRouting) (q : BasePacket) : Prop where
  decoded : Beacon.getPeriod q = b.beaconPeriod
  room : ∀ nd last t, t + b.beaconPeriod < (NodeDescr.noteBeacon nd last q t).1.linkValidity

/-- For every period that the command accepts and every beacon of a station that has this period:
a neighbour that hears the beacon with its header knows the period and keeps the link beyond the
next beacon exactly if the period is positive and below `2 ^ 16` milliseconds. -/
theorem periodKept_iff {host : Host} {q q' : BasePacket}
    (hset : b.beaconPeriodCommand argv = (b', .setting p))
    (hperiod : b₁.beaconPeriod = b'.beaconPeriod) (hmake : b₁.makeBeacon host = .ok (b₂, q))
    (hsame : ∀ i, i < Beacon.offsetLNeigh → q'.buffer i = q.buffer i) :
    PeriodKept b₁ q' ↔ 0 < p ∧ p < 2 ^ 16 := by
  obtain ⟨hmillis, hne⟩ := beaconPeriodCommand_setting hset
  have hvalue : (b₁.beaconPeriod : Int) = p * 1000000 := hperiod.trans hmillis
  have hdecoded : Beacon.getPeriod q' = p % 2 ^ 16 * 1000000 :=
    getPeriod_makeBeacon hmake hsame (hperiod.trans hmillis)
  constructor
  · intro h
    have heq : p % 2 ^ 16 * 1000000 = p * 1000000 := hdecoded.symm.trans (h.decoded.trans hvalue)
    omega
  · rintro ⟨hpos, hlt⟩
    have hsix : p % 2 ^ 16 = p := Int.emod_eq_of_lt (by omega) hlt
    rw [hsix] at hdecoded
    refine ⟨hdecoded.trans hvalue.symm, fun nd last t => ?_⟩
    obtain ⟨-, -, -, -, hvalid⟩ := noteBeacon_spec nd last q' t
    -- eight periods are more than one
    rw [hvalid, hdecoded, hvalue]
    have hroom : ∀ d t : Int, 0 < d → t + d < t + d * 8 := by omega
    exact hroom (p * 1000000) t (by omega)

/-- A period of a second is kept. -/
theorem periodKept_second : ∃ b₂ q,
    (beaconsEvery 1000).makeBeacon (pairHosts false) = .ok (b₂, q) ∧
      PeriodKept (beaconsEvery 1000) q :=
  ⟨_, _, rfl, (periodKept_iff (beaconPeriodCommand_set startedBeacons "1000" (p := 1000)
    (by decide) (by decide)) (show (beaconsEvery 1000).beaconPeriod = _ from rfl) rfl
    fun _ _ => rfl).mpr (by decide)⟩

/-- Of a period of 70 s a neighbour decodes 4464 ms, and the link runs out after 35.712 s. -/
theorem period_truncated : ∃ b₂ q,
    startedBeacons.beaconPeriodCommand (setPeriodArgs "70000")
        = (beaconsEvery 70000, .setting 70000) ∧
      (beaconsEvery 70000).makeBeacon (pairHosts false) = .ok (b₂, q) ∧
      (∀ nd last, (NodeDescr.noteBeacon nd last q 0).1.linkValidity = 35712000000) ∧
      ¬ PeriodKept (beaconsEvery 70000) q := by
  obtain ⟨b₂, q, hmake⟩ : ∃ b₂ q,
      (beaconsEvery 70000).makeBeacon (pairHosts false) = .ok (b₂, q) := ⟨_, _, rfl⟩
  have hdecoded : Beacon.getPeriod q = Duration.ofMillis 4464 :=
    getPeriod_makeBeacon hmake (p := 70000) (fun _ _ => rfl) rfl
  refine ⟨b₂, q, beaconPeriodCommand_set _ "70000" (by decide) (by decide), hmake, ?_, ?_⟩
  · intro nd last
    obtain ⟨-, -, -, -, hvalid⟩ := noteBeacon_spec nd last q 0
    rw [hvalid, hdecoded]
    rfl
  · intro h
    have heq := h.decoded
    rw [hdecoded] at heq
    exact absurd heq (by decide)

end Awds.Proofs
