import Awds.PktPair
import Awds.Lib.CircularBuffer
import Awds.Proofs.Topology.Links

/-!
# `Awds.Proofs.PktPair`: the minimum of the last samples

The durations of a neighbour are a stream that starts with one default for each slot. `Samples`
is the invariant of `setTime`: the slots are laid out for this stream, and the position is that of
its next element. So the slots hold the last `capacity` durations, in whatever order, and the
minimum does not depend on it.
-/

set_option autoImplicit false

namespace Awds.Proofs

open Awds.Lib Awds.SNodeData

/-- The slots hold the last `capacity` durations of the stream `l`. -/
structure Samples (d : SNodeData) (l : List Duration) : Prop where
  pos : 0 < d.capacity
  length : d.times.length = d.capacity
  position : d.position = l.length % d.capacity
  filled : d.capacity ≤ l.length
  laid : Laid (fun k => d.times.getD k 0) d.capacity l

section

variable (smooth : Duration → Duration → Duration) {d : SNodeData} {l : List Duration}

/-- The defaults of a new neighbour. -/
theorem samples_new (now : AbsTime) {c : Nat} (hc : 1 ≤ c) :
    Samples (PktPair.newNodeData now c) (List.replicate c 1000000000) where
  pos := hc
  length := List.length_replicate
  position := by
    rw [List.length_replicate]
    exact (Nat.mod_self c).symm
  filled := List.length_replicate.ge
  laid := by
    refine laid_first (fun i hi => ?_) List.length_replicate.le
    show (List.replicate c (1000000000 : Duration)).getD i 0 = _
    rw [List.getD_eq_getElem _ _ hi]

theorem Samples.position_lt (h : Samples d l) : d.position < d.capacity := by
  rw [h.position]
  exact Nat.mod_lt _ h.pos

/-- A measured duration takes the place of the oldest one. -/
theorem Samples.setTime (h : Samples d l) (t : Duration) :
    ∃ d', d.setTime smooth t = .ok d' ∧ d'.capacity = d.capacity ∧ Samples d' (l ++ [t]) := by
  have hlt := h.position_lt
  have hpos := h.pos
  have hfilled := h.filled
  refine ⟨{ d with
    times := d.times.set d.position t
    position := (d.position + 1) % d.capacity }, ?_, rfl, ?_⟩
  · -- The position is a slot of the array.
    unfold SNodeData.setTime
    rw [if_pos (by rw [h.length]; omega), if_pos (by rw [h.length]; exact hlt)]
  · refine ⟨h.pos, ?_, ?_, ?_, ?_⟩
    · rw [List.length_set, h.length]
    · rw [List.length_append, List.length_singleton, h.position, Nat.mod_add_mod]
    · rw [List.length_append]
      exact hfilled.trans (Nat.le_add_right _ _)
    · -- The array is again the list laid around the ring.
      refine h.laid.append (by rw [List.length_singleton]; exact hpos) (fun j hj => ?_)
        fun k _ hother => ?_
      · -- The slot at the position has the new time.
        obtain rfl : j = 0 := by simpa using hj
        show (d.times.set d.position t).getD ((l.length + 0) % d.capacity) 0 = t
        rw [Nat.add_zero, ← h.position]
        simp [h.length, hlt]
      · -- Every other slot has what it had.
        have hne : d.position ≠ k := by
          have h0 := hother 0 (by simp)
          rwa [Nat.add_zero, ← h.position] at h0
        simp [List.getElem?_set_ne hne]

/-- A sequence of measured durations. -/
theorem Samples.setTimes (h : Samples d l) (ts : List Duration) :
    ∃ d', d.setTimes smooth ts = .ok d' ∧ d'.capacity = d.capacity ∧ Samples d' (l ++ ts) := by
  induction ts generalizing d l with
  | nil => exact ⟨d, rfl, rfl, by rwa [List.append_nil]⟩
  | cons t ts ih =>
    obtain ⟨d1, hcall, hcapacity, hsamples⟩ := h.setTime smooth t
    obtain ⟨d', hrun, hsame, hsamples'⟩ := ih hsamples
    refine ⟨d', ?_, hsame.trans hcapacity, ?_⟩
    · unfold SNodeData.setTimes at hrun ⊢
      rw [List.foldlM_cons, hcall]
      exact hrun
    · rwa [List.append_assoc, List.singleton_append] at hsamples'

/-- The loop finds the minimum of the value it starts with and the slots it looks at. -/
theorem minLoop_run (times : List Duration) (n : Nat) :
    ∀ i time, i + n ≤ times.length → ∃ m, minLoop times n i time = .ok m ∧
      IsLeast {t | t = time ∨ ∃ k, i ≤ k ∧ k < i + n ∧ times[k]? = some t} m := by
  induction n with
  -- Nothing is left to look at, so the time so far is the least.
  | zero =>
    intro i time _
    refine ⟨time, rfl, .inl rfl, ?_⟩
    rintro t (rfl | ⟨k, hle, hlt, -⟩)
    · exact le_rfl
    · omega
  -- One slot is looked at, and the rest follows with the smaller of the two.
  | succ n ih =>
    intro i time hlen
    have hi : times[i]? = some times[i] := List.getElem?_eq_getElem (by omega)
    obtain ⟨m, hrun, hmem, hleast⟩ := ih (i + 1) (min time times[i]) (by omega)
    refine ⟨m, by rw [minLoop, hi]; exact hrun, ?_, fun t ht => ?_⟩
    · -- the minimum of two is one of the two
      rcases hmem with hmin | ⟨k, hle, hlt, hk⟩
      · rcases min_choice time times[i] with htime | hslot
        · exact .inl (hmin.trans htime)
        · exact .inr ⟨i, le_rfl, by omega, by rw [hi, hmin, hslot]⟩
      · exact .inr ⟨k, by omega, by omega, hk⟩
    · -- Each time is the one so far, the slot looked at, or one further on.
      have hbound : m ≤ min time times[i] := hleast (.inl rfl)
      rcases ht with rfl | ⟨k, hle, hlt, hk⟩
      · exact hbound.trans (min_le_left _ _)
      · rcases Nat.eq_or_lt_of_le hle with rfl | hlater
        · rw [hi, Option.some.injEq] at hk
          exact hk ▸ hbound.trans (min_le_right _ _)
        · exact hleast (.inr ⟨k, hlater, by omega, hk⟩)

/-- `getTime` returns the minimum of the last samples. -/
theorem Samples.getTime (h : Samples d l) :
    ∃ m, d.getTime = .ok ({ d with time := m }, m) ∧ IsLeast {t | t ∈ l.rtake d.capacity} m := by
  have hpos := h.pos
  -- The capacity is positive, so there is a first slot.
  obtain ⟨t, rest, htimes⟩ : ∃ t rest, d.times = t :: rest := by
    refine List.exists_cons_of_ne_nil fun hnil => ?_
    have hlen := h.length
    rw [hnil, List.length_nil] at hlen
    omega
  obtain ⟨m, hrun, hleast⟩ := minLoop_run d.times (d.capacity - 1) 1 t (by rw [h.length]; omega)
  refine ⟨m, ?_, ?_⟩
  · unfold SNodeData.getTime
    rw [htimes] at hrun ⊢
    dsimp only
    rw [hrun]
    rfl
  · -- the first slot and the others are all slots
    convert hleast using 1
    ext x
    show x ∈ l.rtake d.capacity ↔ _
    rw [← h.laid.mem_cells h.filled]
    constructor
    · rintro ⟨k, hk, rfl⟩
      rcases Nat.eq_zero_or_pos k with rfl | hk0
      · exact .inl (by simp [htimes])
      · refine .inr ⟨k, hk0, by omega, ?_⟩
        rw [List.getD_eq_getElem _ _ (by rw [h.length]; exact hk)]
        exact List.getElem?_eq_getElem _
    · rintro (rfl | ⟨k, -, hlt, hk⟩)
      · exact ⟨0, hpos, by simp [htimes]⟩
      · exact ⟨k, by omega, by simp [hk]⟩

end

/-- Behind any sequence of measured durations the position is a slot, and `getTime` returns the
minimum of the last `c` samples, which are defaults of a second where not enough were measured. -/
theorem getTime_setTimes (smooth : Duration → Duration → Duration) (now : AbsTime) {c : Nat}
    (hc : 1 ≤ c) (ts : List Duration) :
    ∃ d m, (PktPair.newNodeData now c).setTimes smooth ts = .ok d ∧ d.position < c ∧
      d.getTime = .ok ({ d with time := m }, m) ∧
      IsLeast {t | t ∈ (List.replicate c (1000000000 : Duration) ++ ts).rtake c} m := by
  obtain ⟨d, hrun, hcapacity, hsamples⟩ := (samples_new now hc).setTimes smooth ts
  have hc' : d.capacity = c := hcapacity
  obtain ⟨m, htime, hleast⟩ := hsamples.getTime
  rw [hc'] at hleast
  exact ⟨d, m, hrun, hc' ▸ hsamples.position_lt, htime, hleast⟩

/-- Three durations and two slots. -/
theorem getTime_setTimes_two : ∃ d m,
    (PktPair.newNodeData 0 2).setTimes (fun t _ => t) [5, 9, 7] = .ok d ∧ d.position < 2 ∧
      d.getTime = .ok ({ d with time := m }, m) ∧
      IsLeast {t | t ∈ (List.replicate 2 (1000000000 : Duration) ++ [5, 9, 7]).rtake 2} m :=
  getTime_setTimes (fun t _ => t) 0 (by decide) [5, 9, 7]

end Awds.Proofs
