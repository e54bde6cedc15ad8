import Awds.Proofs.Routing.TopoSchedule

/-!
# `Awds.Proofs.Routing.TopoPeriod`: the adaptive period of topo packets

`send_topo` computes a period from the number of nodes and bounds it "to force slow increase".
The bound is taken from the new value, which it never limits, so the period follows the number of
nodes at once, upwards as well as downwards. `period_forced_iff` says for a sequence of calls of
`send_topo`, with any changes of the network between them, which of the calls are in the limits.

The loop of `isqrt` finds the bits of the root from the top. `isqrtLoop_spec` is its invariant:
the root that is known so far, the bits that are left and the remainder make up the argument.
-/

set_option autoImplicit false

namespace Awds.Proofs

open Std (ExtTreeMap)
open Awds.Lib Awds.AwdsRouting Awds.RTopology

/-! ### The integer square root -/

/-- The bits of `root` are above those of the squared bit. -/
theorem squaredbit_or (c n : Nat) : 4 ^ n ||| c * 4 ^ (n + 1) = 4 ^ n + c * 4 ^ (n + 1) := by
  have hpow : 4 ^ (n + 1) = 2 ^ (2 * n + 2) := by
    rw [show 4 = 2 ^ 2 from rfl, ← pow_mul, Nat.mul_add]
  have hlt : 4 ^ n < 2 ^ (2 * n + 2) := by
    rw [← hpow]
    exact Nat.pow_lt_pow_right (by decide) (Nat.lt_succ_self n)
  calc 4 ^ n ||| c * 4 ^ (n + 1) = c <<< (2 * n + 2) ||| 4 ^ n := by
        rw [hpow, Nat.shiftLeft_eq, Nat.or_comm]
    _ = c <<< (2 * n + 2) + 4 ^ n := (Nat.shiftLeft_add_eq_or_of_lt hlt c).symm
    _ = 4 ^ n + c * 4 ^ (n + 1) := by rw [hpow, Nat.shiftLeft_eq, Nat.add_comm]

/-- The shift of the root in one turn. -/
theorem root_shift (c n : Nat) : (c * 4 ^ (n + 1)) >>> 1 = 2 * c * 4 ^ n := by
  rw [Nat.shiftRight_eq_div_pow, pow_one, show c * 4 ^ (n + 1) = 2 * c * 4 ^ n * 2 by ring,
    Nat.mul_div_cancel _ Nat.two_pos]

/-- The new bit of the root. -/
theorem root_or (c n : Nat) : (c * 4 ^ (n + 1)) >>> 1 ||| 4 ^ n = (2 * c + 1) * 4 ^ n := by
  have hpow : 2 * c * 4 ^ n = c <<< (2 * n + 1) := by
    rw [Nat.shiftLeft_eq, pow_succ, pow_mul]
    ring
  have hlt : 4 ^ n < 2 ^ (2 * n + 1) := by
    rw [show 4 = 2 ^ 2 from rfl, ← pow_mul]
    exact Nat.pow_lt_pow_right (by decide) (Nat.lt_succ_self _)
  rw [root_shift, hpow, ← Nat.shiftLeft_add_eq_or_of_lt hlt, ← hpow]
  ring

/-- The loop with `n` bits left. `c` is the root of the bits that are done, and `remainder` what
its square leaves of the argument. -/
theorem isqrtLoop_spec (n : Nat) : ∀ c remainder : Nat,
    remainder + (c * 2 ^ n) ^ 2 < ((c + 1) * 2 ^ n) ^ 2 →
      isqrtLoop n remainder (c * 4 ^ n) ^ 2 ≤ remainder + (c * 2 ^ n) ^ 2 ∧
        remainder + (c * 2 ^ n) ^ 2 < (isqrtLoop n remainder (c * 4 ^ n) + 1) ^ 2 := by
  induction n with
  | zero =>
    intro c remainder h
    simpa [isqrtLoop] using h
  | succ n ih =>
    intro c remainder h
    have hpow : (2 ^ n) ^ 2 = 4 ^ n := by rw [← pow_mul, mul_comm, pow_mul]; rfl
    rw [isqrtLoop]
    simp only [ge_iff_le, squaredbit_or]
    split
    · -- the bit is one of the root
      rename_i hbit
      have hsum : remainder - (4 ^ n + c * 4 ^ (n + 1)) + ((2 * c + 1) * 2 ^ n) ^ 2
          = remainder + (c * 2 ^ (n + 1)) ^ 2 := by
        have hsquare : ((2 * c + 1) * 2 ^ n) ^ 2
            = (4 ^ n + c * 4 ^ (n + 1)) + (c * 2 ^ (n + 1)) ^ 2 := by
          rw [mul_pow, hpow, pow_succ 2 n, ← mul_assoc, mul_pow, mul_pow, hpow]
          ring
        omega
      rw [root_or, ← hsum]
      refine ih (2 * c + 1) _ ?_
      rw [hsum]
      calc remainder + (c * 2 ^ (n + 1)) ^ 2 < ((c + 1) * 2 ^ (n + 1)) ^ 2 := h
        _ = ((2 * c + 1 + 1) * 2 ^ n) ^ 2 := by ring
    · rename_i hbit
      have hsame : (2 * c * 2 ^ n) ^ 2 = (c * 2 ^ (n + 1)) ^ 2 := by ring
      rw [root_shift, ← hsame]
      refine ih (2 * c) remainder ?_
      calc remainder + (2 * c * 2 ^ n) ^ 2 < 4 ^ n + c * 4 ^ (n + 1) + (2 * c * 2 ^ n) ^ 2 := by
            omega
        _ = ((2 * c + 1) * 2 ^ n) ^ 2 := by
            rw [mul_pow (2 * c) (2 ^ n), mul_pow (2 * c + 1) (2 ^ n), hpow]
            ring

/-- `isqrt` is the integer square root, as far as the first squared bit reaches. -/
theorem isqrt_eq_sqrt {x : Nat} (hx : x < 2 ^ 64) : isqrt x = Nat.sqrt x := by
  unfold isqrt
  split
  · rename_i h
    have hzero : x = 0 := by omega
    subst hzero
    rfl
  · have hspec := isqrtLoop_spec 32 0 x (by simpa using hx)
    rw [Nat.zero_mul, Nat.zero_mul, zero_pow (by decide), Nat.add_zero] at hspec
    exact Nat.eq_sqrt'.mpr hspec

/-! ### The period -/

/-- The period for `n` nodes, `200 * n * n * 4 / isqrt(16 * n)`. -/
def periodFor (n : Nat) : Nat := 200 * n * n * 4 / isqrt (n * 16)

/-- The call of `send_topo` has set the period for `n` nodes as it should: it is positive, it is
at most the computed one, it exceeds the previous one by at most a fifth of that, and it is the
computed one if that is not above the previous one. -/
structure Forced (previous : Int) (n : Nat) (period : Int) : Prop where
  positive : 0 < period
  bounded : period ≤ periodFor n
  slow : 5 * (period - previous) ≤ previous
  atOnce : (periodFor n : Int) ≤ previous → period = periodFor n

/-- The computed period is an `int`. -/
def FitsInt (n : Nat) : Prop := periodFor n < 2 ^ 31

/-- The computed period is at most a fifth above the previous one. -/
def RisesSlowly (previous : Int) (n : Nat) : Prop := 5 * (periodFor n : Int) ≤ 6 * previous

/-- The period is positive as long as the number of nodes leaves room for it in 64 bits. -/
theorem periodFor_pos {n : Nat} (hn : 1 ≤ n) (hlt : n < 2 ^ 60) : 0 < periodFor n := by
  have hroot : isqrt (n * 16) ≤ n * 16 := by
    rw [isqrt_eq_sqrt (by omega)]
    exact Nat.sqrt_le_self _
  refine Nat.div_pos (hroot.trans ?_) (isqrt_pos (by omega))
  calc n * 16 ≤ n * (800 * n) := Nat.mul_le_mul_left n (by omega)
    _ = 200 * n * n * 4 := by ring

/-- The period that `send_topo` sets: the bound takes no part in it. -/
theorem adaptivePeriod_eq {n : Nat} (hn : 1 ≤ n) (hfits : FitsInt n) :
    adaptivePeriod n = .ok (periodFor n) := by
  have hmin : min (periodFor n) (periodFor n + periodFor n / 5) = periodFor n :=
    Nat.min_eq_left (Nat.le_add_right _ _)
  have hbmod : Int.bmod (periodFor n : Int) (2 ^ 32) = periodFor n := by
    unfold FitsInt at hfits
    rw [Int.bmod_eq_of_le] <;> omega
  unfold adaptivePeriod
  rw [if_neg (isqrt_pos (by omega)).ne',
    show 200 * n * n * 4 / isqrt (n * 16) = periodFor n from rfl]
  simp only [← Nat.cast_min, hmin, hbmod]

/-- The computed period is set as it should be exactly if it rises slowly. -/
theorem forced_periodFor_iff {previous : Int} {n : Nat} (hpos : 0 < periodFor n) :
    Forced previous n (periodFor n) ↔ RisesSlowly previous n := by
  unfold RisesSlowly
  constructor
  · intro h
    have hslow := h.slow
    omega
  · intro h
    exact ⟨by omega, le_rfl, by omega, fun _ => rfl⟩

/-! ### Successive calls -/

/-- Successive calls of `send_topo` in adaptive mode. `r i` is the station in front of the call
`i`, with at least one node. Between two calls everything but the period may change. -/
structure TopoCalls (host : Host) (r : Nat → AwdsRouting) : Prop where
  adaptive : ∀ i, (r i).topoPeriodType = .adaptive
  nodes : ∀ i, 1 ≤ (r i).topology.adjList.size
  sends : ∀ i, ∃ r' p, (r i).unsignedTopo host = .ok (r', p) ∧
    (r (i + 1)).topoPeriodMs = r'.topoPeriodMs

/-- The call `i` has set the period as it should. -/
def ForcedAt (r : Nat → AwdsRouting) (i : Nat) : Prop :=
  Forced (r i).topoPeriodMs (r i).topology.adjList.size (r (i + 1)).topoPeriodMs

section
variable {host : Host} {r : Nat → AwdsRouting}

/-- The map of the nodes is not larger than the set of the identifiers. -/
theorem size_lt_identifiers (adj : AdjList) : adj.size < 2 ^ 60 := by
  have hcard : adj.size ≤ (Finset.univ : Finset NodeId).card :=
    size_le_card Finset.univ fun u _ => Finset.mem_univ u
  rw [Finset.card_univ, Fintype.card_fin] at hcard
  omega

/-- `send_topo` sets the period of the adaptive mode. -/
theorem unsignedTopo_period {r r' : AwdsRouting} {p : BasePacket}
    (hmode : r.topoPeriodType = .adaptive) (h : r.unsignedTopo host = .ok (r', p)) :
    adaptivePeriod r.topology.adjList.size = .ok r'.topoPeriodMs := by
  obtain ⟨p1, -, h⟩ := bind_eq_ok.mp h
  obtain ⟨period, hperiod, h⟩ := bind_eq_ok.mp h
  cases h
  unfold nextTopoPeriod at hperiod
  split at hperiod
  · rename_i hconstant
    have hmode' : r.topoPeriodType = .constant := hconstant
    rw [hmode] at hmode'
    cases hmode'
  · exact hperiod

/-- For all successive calls of `send_topo` in adaptive mode: in a run in which each computed
period is an `int` and rises slowly, every call sets the period as it should. A call whose
computed period is an `int` does so only if that period rises slowly. -/
theorem period_forced_iff (h : TopoCalls host r) :
    ((∀ i, FitsInt (r i).topology.adjList.size ∧
        RisesSlowly (r i).topoPeriodMs (r i).topology.adjList.size) → ∀ i, ForcedAt r i) ∧
      ∀ i, FitsInt (r i).topology.adjList.size →
        (ForcedAt r i ↔ RisesSlowly (r i).topoPeriodMs (r i).topology.adjList.size) := by
  have hcall : ∀ i, FitsInt (r i).topology.adjList.size →
      (ForcedAt r i ↔ RisesSlowly (r i).topoPeriodMs (r i).topology.adjList.size) := by
    intro i hfits
    obtain ⟨r', p, hsend, hnext⟩ := h.sends i
    have hperiod := unsignedTopo_period (h.adaptive i) hsend
    rw [adaptivePeriod_eq (h.nodes i) hfits, Except.ok.injEq] at hperiod
    unfold ForcedAt
    rw [hnext, ← hperiod]
    exact forced_periodFor_iff (periodFor_pos (h.nodes i) (size_lt_identifiers _))
  exact ⟨fun hall i => (hcall i (hall i).1).mpr (hall i).2, hcall⟩

end

/-! ### Station 1 -/

/-- The map of station 1 with `n` more nodes. -/
def mapWith : Nat → AdjList
  | 0 => (pairRouting false).topology.adjList
  | n + 1 => (mapWith n).insert (Fin.ofNat _ (n + 2)) { distance := 0 }

/-- Station 1 with the period `ms` and with `n` more nodes. -/
def stationWith (ms : Int) (n : Nat) : AwdsRouting :=
  { pairRouting false with
    topoPeriodMs := ms
    topology := { adjList := mapWith n } }

/-- A test for the period that a call sets. -/
def setsPeriod (ms : Int) (x : AwdsRouting × BasePacket) : Bool := decide (x.1.topoPeriodMs = ms)

/-- The calls of a station that stays alone: the first period, then 200 ms. -/
def alone (i : Nat) : AwdsRouting := stationWith (if i = 0 then 1000 else 200) 0

/-- Alone, the station goes down from the first period to 200 ms at once. -/
theorem period_forced_alone :
    TopoCalls (pairHosts false) alone ∧ (alone 1).topoPeriodMs = 200 ∧
      ∀ i, ForcedAt alone i := by
  have hsends : ∀ ms ∈ [(1000 : Int), 200], ∃ x,
      (stationWith ms 0).unsignedTopo (pairHosts false) = .ok x ∧ setsPeriod 200 x = true := by
    intro ms hms
    simp only [List.mem_cons, List.not_mem_nil, or_false] at hms
    rcases hms with rfl | rfl
    · exact exists_of_test _ (setsPeriod 200) (by decide +kernel)
    · exact exists_of_test _ (setsPeriod 200) (by decide +kernel)
  have hsize : ∀ i, (alone i).topology.adjList.size = 1 := fun _ => rfl
  have hcalls : TopoCalls (pairHosts false) alone := by
    refine ⟨fun _ => rfl, fun i => (hsize i).ge, fun i => ?_⟩
    obtain ⟨⟨r', p⟩, hsend, hperiod⟩ := hsends (if i = 0 then 1000 else 200) (by split <;> simp)
    exact ⟨r', p, hsend, (of_decide_eq_true hperiod).symm⟩
  refine ⟨hcalls, rfl, (period_forced_iff hcalls).1 fun j => ?_⟩
  have hvalue : (periodFor 1 : Int) = 200 := by decide +kernel
  rw [hsize]
  refine ⟨by unfold FitsInt; decide +kernel, ?_⟩
  unfold RisesSlowly
  rw [hvalue]
  -- the call 0 starts from 1000 ms, every later one from 200 ms
  show 5 * 200 ≤ 6 * (if j = 0 then 1000 else 200 : Int)
  split <;> decide

/-- The calls with the first period, alone and with seven more nodes. -/
def joining : Nat → AwdsRouting
  | 0 => stationWith 1000 0
  | 1 => stationWith 200 7
  | _ => stationWith 4654 7

/-- Seven stations join between two calls: the period goes up from 200 ms to 4654 ms. -/
theorem period_jumps :
    TopoCalls (pairHosts false) joining ∧ (joining 1).topoPeriodMs = 200 ∧
      (joining 2).topoPeriodMs = 4654 ∧ ¬ ForcedAt joining 1 := by
  have hsends : ∀ i, ∃ x, (joining i).unsignedTopo (pairHosts false) = .ok x ∧
      setsPeriod (joining (i + 1)).topoPeriodMs x = true := by
    intro i
    rcases i with _ | _ | i
    · exact exists_of_test _ (setsPeriod 200) (by decide +kernel)
    · exact exists_of_test _ (setsPeriod 4654) (by decide +kernel)
    · exact exists_of_test ((stationWith 4654 7).unsignedTopo (pairHosts false))
        (setsPeriod 4654) (by decide +kernel)
  have hmap : 1 ≤ (mapWith 7).size := by decide +kernel
  have hnodes : ∀ i, 1 ≤ (joining i).topology.adjList.size := by
    intro i
    rcases i with _ | _ | i
    · exact le_rfl
    · exact hmap
    · exact hmap
  have hadaptive : ∀ i, (joining i).topoPeriodType = .adaptive := by
    intro i
    rcases i with _ | _ | i <;> rfl
  refine ⟨⟨hadaptive, hnodes, fun i => ?_⟩, rfl, rfl, fun h => ?_⟩
  · obtain ⟨⟨r', p⟩, hsend, hperiod⟩ := hsends i
    exact ⟨r', p, hsend, (of_decide_eq_true hperiod).symm⟩
  · have hslow := h.slow
    change 5 * (4654 - 200 : Int) ≤ 200 at hslow
    omega

end Awds.Proofs
