import Awds.CryptoHelpers
import Awds.Proofs.Topology.Links

/-!
# `Awds.Proofs.Crypto.RandomBytes`: where the random bytes are stored

`getRandomByte` takes the bytes that a call of `read` has delivered off the number of those that
are left, and then moves the pointer by what is left instead of what was delivered. The two are
the same only if each call but the last delivers half of the bytes that are left (`HalvesLeft`).

`RandomRun.deliver` is the step for a call that delivers some bytes, and `randomLoop_run` the
induction over the calls of `read`. The number of stored bytes is that of
the positions of the destination, so all positions are written only if none is written twice,
and a wrong step of the pointer leaves a gap or writes a byte again.
-/

set_option autoImplicit false

namespace Awds.Proofs

open Awds.Lib

/-- The bytes that some calls of `read` deliver. -/
def deliveredBytes : List RandomRead → List UInt8
  | [] => []
  | .bytes bs :: reads => bs ++ deliveredBytes reads
  | _ :: reads => deliveredBytes reads

/-- How many bytes each of the calls delivers that deliver some. -/
def deliveredSizes : List RandomRead → List Nat
  | [] => []
  | .bytes bs :: reads => bs.length :: deliveredSizes reads
  | _ :: reads => deliveredSizes reads

/-- A call is interrupted or delivers at least one byte. -/
def Delivers : RandomRead → Prop
  | .interrupted => True
  | .fails => False
  | .bytes bs => bs ≠ []

/-- Every call but the last delivers half of the `num` bytes that are left. -/
def HalvesLeft : Nat → List Nat → Prop
  | _, [] => True
  | _, [_] => True
  | num, size :: size' :: sizes => 2 * size = num ∧ HalvesLeft (num - size) (size' :: sizes)

/-! ### Positions -/

/-- The bytes are stored at consecutive addresses. -/
theorem storedAt_positions (cdest : Nat) (bs : List UInt8) :
    (storedAt cdest bs).map Prod.fst = List.range' cdest bs.length := by
  unfold storedAt
  rw [List.map_map]
  exact List.zipIdx_map_snd cdest bs

/-- The second list is stored behind the first one. -/
theorem storedAt_append (cdest : Nat) (as bs : List UInt8) :
    storedAt cdest (as ++ bs) = storedAt cdest as ++ storedAt (cdest + as.length) bs := by
  unfold storedAt
  rw [List.zipIdx_append, List.map_append]

/-- Every byte is stored once. -/
theorem length_storedAt (cdest : Nat) (bs : List UInt8) :
    (storedAt cdest bs).length = bs.length := by
  simp [storedAt]

/-- As many positions as there are to write, all of them written: none is written twice. -/
theorem nodup_of_covers {ps : List Nat} {cdest num : Nat} (hlen : ps.length = num)
    (hall : ∀ i < num, cdest + i ∈ ps) : ps.Nodup := by
  have hsub : List.range' cdest num ⊆ ps := by
    intro p hp
    obtain ⟨i, hi, rfl⟩ := List.mem_range'.mp hp
    rw [Nat.one_mul]
    exact hall i hi
  have hnodup : (List.range' cdest num).Nodup := List.nodup_range'
  have hperm : (List.range' cdest num).Perm ps :=
    (hnodup.subperm hsub).perm_of_length_le (by rw [List.length_range', hlen])
  exact hperm.nodup_iff.mp hnodup

/-! ### The loop -/

/-- What the loop does with calls that deliver `num` bytes together. -/
structure RandomRun (cdest num : Nat) (reads : List RandomRead) (ws : List (Nat × UInt8)) :
    Prop where
  run : randomLoop cdest num reads = .ok ws
  length : ws.length = num
  above : ∀ p ∈ ws.map Prod.fst, cdest ≤ p
  first : 0 < num → cdest ∈ ws.map Prod.fst
  inOrder : HalvesLeft num (deliveredSizes reads) → ws = storedAt cdest (deliveredBytes reads)
  halves : (∀ i < num, cdest + i ∈ ws.map Prod.fst) → HalvesLeft num (deliveredSizes reads)

/-- Calls that deliver nothing. -/
theorem deliveredSizes_eq_nil {reads : List RandomRead} (hreads : ∀ r ∈ reads, Delivers r)
    (hnil : deliveredBytes reads = []) : deliveredSizes reads = [] := by
  induction reads with
  | nil => rfl
  | cons r reads ih =>
    cases r with
    | interrupted => exact ih (fun r hr => hreads r (List.mem_cons_of_mem _ hr)) hnil
    | fails => exact (hreads _ List.mem_cons_self).elim
    | bytes bs => exact absurd (List.append_eq_nil_iff.mp hnil).1 (hreads _ List.mem_cons_self)

/-- Calls that deliver something. -/
theorem exists_deliveredSizes {reads : List RandomRead} (h : deliveredBytes reads ≠ []) :
    ∃ size sizes, deliveredSizes reads = size :: sizes := by
  induction reads with
  | nil => exact absurd rfl h
  | cons r reads ih =>
    cases r with
    | bytes bs => exact ⟨_, _, rfl⟩
    | _ => exact ih h

/-- The positions of a block and later ones, that many further on as are left. If no position is
missing, the block is as long as what is left. -/
theorem length_eq_of_covers {cdest size left : Nat} {later : List Nat} (hpos : 0 < left)
    (hlen : later.length = left) (habove : ∀ p ∈ later, cdest + left ≤ p)
    (hfirst : cdest + left ∈ later)
    (hall : ∀ i < size + left, cdest + i ∈ List.range' cdest size ++ later) : left = size := by
  have hbehind : cdest + size ∈ later := by
    have hmem := hall size (by omega)
    rw [List.mem_append, List.mem_range'_1] at hmem
    rcases hmem with hmem | hmem
    · omega
    · exact hmem
  -- The pointer has not moved too far, or there would be a gap.
  have hgap := habove _ hbehind
  -- And it has moved far enough, or a byte would be written again.
  have hagain : ¬ left < size := by
    intro hlt
    have hnodup := nodup_of_covers (by rw [List.length_append, List.length_range', hlen]) hall
    have hblock : cdest + left ∈ List.range' cdest size :=
      List.mem_range'_1.mpr ⟨by omega, by omega⟩
    exact (List.disjoint_of_nodup_append hnodup) hblock hfirst
  omega

section

variable {cdest num : Nat} {bs : List UInt8} {reads : List RandomRead}
  {later : List (Nat × UInt8)}

/-- The addresses of two parts follow each other. -/
theorem positions_append (cdest : Nat) (bs : List UInt8) (later : List (Nat × UInt8)) :
    (storedAt cdest bs ++ later).map Prod.fst =
      List.range' cdest bs.length ++ later.map Prod.fst := by
  rw [List.map_append, storedAt_positions]

/-- If each call but the last delivers half of the bytes, the pointer is behind the block. -/
theorem RandomRun.inOrder_deliver (hsum : bs.length + (deliveredBytes reads).length = num)
    (h : RandomRun (cdest + (num - bs.length)) (num - bs.length) reads later)
    (hhalves : HalvesLeft num (bs.length :: deliveredSizes reads)) :
    storedAt cdest bs ++ later = storedAt cdest (bs ++ deliveredBytes reads) := by
  rw [storedAt_append]
  cases hsizes : deliveredSizes reads with
  | nil =>
    -- This was the last call.
    have hnil : deliveredBytes reads = [] := by
      by_contra hne
      obtain ⟨size, sizes, hcons⟩ := exists_deliveredSizes hne
      rw [hsizes] at hcons
      cases hcons
    rw [h.inOrder (by rw [hsizes]; trivial), hnil]
    rfl
  | cons size sizes =>
    rw [hsizes] at hhalves
    have hhalf := hhalves.1
    rw [h.inOrder (by rw [hsizes]; exact hhalves.2), show num - bs.length = bs.length by omega]

/-- If all positions are written, the call has delivered half of the bytes, or all of them. -/
theorem RandomRun.halves_deliver (hreads : ∀ r ∈ reads, Delivers r)
    (hsum : bs.length + (deliveredBytes reads).length = num)
    (h : RandomRun (cdest + (num - bs.length)) (num - bs.length) reads later)
    (hall : ∀ i < num, cdest + i ∈ (storedAt cdest bs ++ later).map Prod.fst) :
    HalvesLeft num (bs.length :: deliveredSizes reads) := by
  rw [positions_append] at hall
  cases hsizes : deliveredSizes reads with
  | nil => trivial
  | cons size sizes =>
    have hmore : 0 < num - bs.length := by
      have hne : deliveredBytes reads ≠ [] := fun hnil => by
        rw [deliveredSizes_eq_nil hreads hnil] at hsizes
        cases hsizes
      have hlen := List.length_pos_iff.mpr hne
      omega
    have hhalf : num - bs.length = bs.length :=
      length_eq_of_covers hmore (by rw [List.length_map, h.length]) h.above (h.first hmore)
        fun i hi => hall i (by omega)
    refine ⟨by omega, ?_⟩
    rw [← hsizes]
    refine h.halves fun i hi => ?_
    -- The later calls write the positions behind the block.
    have hmem := hall (bs.length + i) (by omega)
    rw [List.mem_append, List.mem_range'_1] at hmem
    rcases hmem with hmem | hmem
    · omega
    · rwa [hhalf, Nat.add_assoc]

/-- A call that delivers some bytes, in front of the others. -/
theorem RandomRun.deliver (hbs : bs ≠ []) (hreads : ∀ r ∈ reads, Delivers r)
    (hsum : bs.length + (deliveredBytes reads).length = num)
    (h : RandomRun (cdest + (num - bs.length)) (num - bs.length) reads later) :
    RandomRun cdest num (.bytes bs :: reads) (storedAt cdest bs ++ later) := by
  have hpos : 0 < bs.length := List.length_pos_iff.mpr hbs
  refine ⟨?_, ?_, ?_, ?_, h.inOrder_deliver hsum, h.halves_deliver hreads hsum⟩
  · obtain ⟨n, rfl⟩ := Nat.exists_eq_succ_of_ne_zero (show num ≠ 0 by omega)
    rw [randomLoop, h.run]
    rfl
  · rw [List.length_append, length_storedAt, h.length]
    omega
  · intro p hp
    rw [positions_append, List.mem_append, List.mem_range'_1] at hp
    rcases hp with hp | hp
    · exact hp.1
    · exact (Nat.le_add_right _ _).trans (h.above p hp)
  · intro _
    rw [positions_append, List.mem_append, List.mem_range'_1]
    exact .inl ⟨le_rfl, by omega⟩

end

/-- If the reads deliver the bytes that are asked for, there is a run, by induction on the reads. -/
theorem randomLoop_run (reads : List RandomRead) : ∀ cdest num, (∀ r ∈ reads, Delivers r) →
    (deliveredBytes reads).length = num → ∃ ws, RandomRun cdest num reads ws := by
  induction reads with
  | nil =>
    intro cdest num _ hnum
    subst hnum
    exact ⟨[], rfl, rfl, fun p hp => (by cases hp), fun h => (by cases h), fun _ => rfl,
      fun _ => trivial⟩
  | cons r reads ih =>
    intro cdest num hreads hnum
    have hrest : ∀ r ∈ reads, Delivers r := fun r hr => hreads r (List.mem_cons_of_mem _ hr)
    cases num with
    | zero =>
      -- The loop is over.
      have hnil := List.length_eq_zero_iff.mp hnum
      refine ⟨[], ?_, rfl, fun p hp => (by cases hp), fun h => (by cases h), fun _ => ?_,
        fun _ => ?_⟩
      · unfold randomLoop
        rfl
      · rw [hnil]
        rfl
      · rw [deliveredSizes_eq_nil hreads hnil]
        trivial
    | succ num =>
      cases r with
      | fails => exact (hreads _ List.mem_cons_self).elim
      | interrupted =>
        obtain ⟨ws, h⟩ := ih cdest (num + 1) hrest hnum
        exact ⟨ws, h.run, h.length, h.above, h.first, h.inOrder, h.halves⟩
      | bytes bs =>
        have hsum : bs.length + (deliveredBytes reads).length = num + 1 := by
          rw [← hnum]
          exact List.length_append.symm
        obtain ⟨later, h⟩ := ih (cdest + (num + 1 - bs.length)) (num + 1 - bs.length) hrest
          (by omega)
        exact ⟨_, h.deliver (hreads _ List.mem_cons_self) hrest hsum⟩

/-- For calls of `read` that deliver `n` bytes together, `getRandomByte` returns. It stores these
bytes one behind the other exactly if every call but the last delivers half of the bytes that are
left, and exactly then it writes all positions of the destination. -/
theorem getRandomByte_iff {n : Nat} {reads : List RandomRead} (hreads : ∀ r ∈ reads, Delivers r)
    (hnum : (deliveredBytes reads).length = n) :
    ∃ ws, getRandomByte true n reads = .ok ws ∧
      (ws = storedAt 0 (deliveredBytes reads) ↔ HalvesLeft n (deliveredSizes reads)) ∧
      ((∀ i < n, i ∈ ws.map Prod.fst) ↔ HalvesLeft n (deliveredSizes reads)) := by
  obtain ⟨ws, h⟩ := randomLoop_run reads 0 n hreads hnum
  have hcovers : ws = storedAt 0 (deliveredBytes reads) → ∀ i < n, i ∈ ws.map Prod.fst := by
    rintro rfl i hi
    rw [storedAt_positions, List.mem_range'_1, hnum]
    exact ⟨Nat.zero_le i, by omega⟩
  have hhalves : (∀ i < n, i ∈ ws.map Prod.fst) → HalvesLeft n (deliveredSizes reads) := by
    intro hall
    exact h.halves fun i hi => by rw [Nat.zero_add]; exact hall i hi
  refine ⟨ws, h.run, ⟨fun heq => hhalves (hcovers heq), h.inOrder⟩, hhalves, fun hleft => ?_⟩
  exact hcovers (h.inOrder hleft)

/-- Four bytes in two calls, with an interrupted one in front of them. -/
theorem getRandomByte_two_halves : ∃ ws,
    getRandomByte true 4 [.interrupted, .bytes [1, 2], .bytes [3, 4]] = .ok ws ∧
      (ws = storedAt 0 [1, 2, 3, 4] ↔ HalvesLeft 4 [2, 2]) ∧
      ((∀ i < 4, i ∈ ws.map Prod.fst) ↔ HalvesLeft 4 [2, 2]) := by
  refine @getRandomByte_iff 4 [.interrupted, .bytes [1, 2], .bytes [3, 4]] ?_ rfl
  simp [Delivers]

/-- The first call for the nonce delivers one byte and the second one the others: the second byte
of the nonce is not written, and most of the others are written behind its end. -/
theorem newNonce_gap : ∃ reads ws, (∀ r ∈ reads, Delivers r) ∧
    (deliveredBytes reads).length = 16 ∧ newNonce true reads = .ok ws ∧
    ws ≠ storedAt 0 (deliveredBytes reads) ∧ 1 ∉ ws.map Prod.fst ∧ (29, 7) ∈ ws := by
  refine ⟨[.bytes [1], .bytes (List.replicate 15 7)], _, ?_, rfl, rfl, ?_, ?_, ?_⟩
  · simp [Delivers]
  · decide
  · decide
  · decide

end Awds.Proofs
