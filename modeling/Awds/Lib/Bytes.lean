import Mathlib

/-!
# `Awds.Lib.Bytes`: byte buffers and big-endian numbers

A packet buffer is a total function from offsets to bytes. `Buffer.read` cuts a block out
of it and `Buffer.write` overwrites one. `toBigEndian n d` is the `n`-byte big-endian image of
`d`, the low byte last, and `ofBigEndian` reads such a block back.

The laws are the ones a packet codec needs: a block that was written reads back, a block
that does not overlap a write reads as before, two adjacent writes are one write of the
joined block, and `ofBigEndian` inverts `toBigEndian` below `256 ^ n`. The order of the numbers is
the lexicographic order of the blocks, which is also what `memcmp` finds.
-/

set_option autoImplicit false

namespace Awds.Lib

/-- The content of a byte buffer, offset by offset. -/
abbrev Buffer := Nat → UInt8

namespace Buffer

/-- The `n` bytes from offset `off` on. -/
def read (buf : Buffer) (off n : Nat) : List UInt8 :=
  (List.range n).map fun i => buf (off + i)

/-- `memcpy` of the block `bs` to offset `off`. -/
def write (buf : Buffer) (off : Nat) (bs : List UInt8) : Buffer := fun i =>
  if off ≤ i then (bs[i - off]?).getD (buf i) else buf i

/-- A read of `n` bytes gives `n` bytes, since a buffer has no end. -/
@[simp] theorem length_read (buf : Buffer) (off n : Nat) : (buf.read off n).length = n := by
  simp [read]

/-- Two reads agree when the buffers agree on the block. -/
theorem read_congr {buf buf' : Buffer} {off n : Nat}
    (h : ∀ i, off ≤ i → i < off + n → buf i = buf' i) : buf.read off n = buf'.read off n := by
  unfold read
  refine List.map_congr_left fun i hi => h _ (by omega) ?_
  have := List.mem_range.mp hi
  omega

/-- A byte in front of the written block is untouched. -/
theorem write_of_lt (buf : Buffer) (bs : List UInt8) {off i : Nat} (h : i < off) :
    buf.write off bs i = buf i := by
  simp [write, Nat.not_le.mpr h]

/-- A byte behind the written block is untouched. -/
theorem write_of_ge (buf : Buffer) (bs : List UInt8) {off i : Nat} (h : off + bs.length ≤ i) :
    buf.write off bs i = buf i := by
  have hlen : bs.length ≤ i - off := by omega
  simp [write, List.getElem?_eq_none hlen]

/-- A byte outside the written block is untouched. -/
theorem write_of_outside (buf : Buffer) (bs : List UInt8) {off i : Nat}
    (h : i < off ∨ off + bs.length ≤ i) : buf.write off bs i = buf i := by
  rcases h with h | h
  · exact write_of_lt buf bs h
  · exact write_of_ge buf bs h

/-- A byte of the written block. -/
theorem write_at (buf : Buffer) (bs : List UInt8) (off k : Nat) (hk : k < bs.length) :
    buf.write off bs (off + k) = bs[k] := by
  simp [write, hk]

/-- One byte, read back where it was written. -/
theorem write_singleton (buf : Buffer) (off : Nat) (b : UInt8) : buf.write off [b] off = b := by
  simp [write]

/-- A block that was written reads back. -/
theorem read_write_self (buf : Buffer) (off : Nat) (bs : List UInt8) :
    (buf.write off bs).read off bs.length = bs := by
  apply List.ext_getElem
  · simp
  · intro i hi hi'
    simp only [read, List.getElem_map, List.getElem_range]
    exact write_at buf bs off i hi'

/-- A block that does not overlap the written one reads as before. -/
theorem read_write_disjoint (buf : Buffer) (bs : List UInt8) {off off' n : Nat}
    (h : off' + n ≤ off ∨ off + bs.length ≤ off') :
    (buf.write off bs).read off' n = buf.read off' n := by
  refine read_congr fun i hlo hhi => ?_
  rcases h with h | h
  · exact write_of_lt buf bs (by omega)
  · exact write_of_ge buf bs (by omega)

/-- Two adjacent writes are one write of the joined block. -/
theorem write_write_append (buf : Buffer) (off : Nat) (as bs : List UInt8) :
    (buf.write off as).write (off + as.length) bs = buf.write off (as ++ bs) := by
  funext i
  by_cases h1 : i < off
  · rw [write_of_lt _ _ (by omega), write_of_lt _ _ h1, write_of_lt _ _ h1]
  by_cases h2 : i < off + as.length
  · obtain ⟨k, rfl⟩ : ∃ k, i = off + k := ⟨i - off, by omega⟩
    have hk : k < as.length := by omega
    rw [write_of_lt _ _ h2, write_at _ _ _ _ hk, write_at _ _ _ _ (by simp; omega),
      List.getElem_append_left hk]
  by_cases h3 : i < off + (as ++ bs).length
  · obtain ⟨k, rfl⟩ : ∃ k, i = off + as.length + k := ⟨i - (off + as.length), by omega⟩
    have hk : k < bs.length := by simp at h3; omega
    rw [write_at _ _ _ _ hk]
    have := write_at buf (as ++ bs) off (as.length + k) (by simp; omega)
    rw [Nat.add_assoc, this, List.getElem_append_right (by omega)]
    simp
  · have hlen : off + as.length + bs.length ≤ i := by simp at h3; omega
    rw [write_of_ge _ _ hlen, write_of_ge _ _ (by omega), write_of_ge _ _ (by simpa using h3)]

/-- Writing nothing changes nothing. -/
@[simp] theorem write_nil (buf : Buffer) (off : Nat) : buf.write off [] = buf := by
  funext i
  by_cases hi : i < off
  · exact write_of_lt _ _ hi
  · exact write_of_ge _ _ (by simpa using hi)

/-- Writing the bytes that are there already changes nothing. -/
theorem write_append_own (buf : Buffer) (off : Nat) (bs : List UInt8) (n : Nat) :
    buf.write off (bs ++ buf.read (off + bs.length) n) = buf.write off bs := by
  rw [← write_write_append]
  funext i
  by_cases hlo : i < off + bs.length
  · exact write_of_lt _ _ hlo
  by_cases hhi : off + bs.length + n ≤ i
  · exact write_of_ge _ _ (by simpa using hhi)
  · obtain ⟨k, rfl⟩ : ∃ k, i = off + bs.length + k := ⟨i - (off + bs.length), by omega⟩
    rw [write_at _ _ _ _ (by simp; omega), write_of_ge _ _ (by omega)]
    simp [read]

/-- A block is read in two parts. -/
theorem read_add (buf : Buffer) (off m n : Nat) :
    buf.read off (m + n) = buf.read off m ++ buf.read (off + m) n := by
  simp [read, List.range_add, Nat.add_assoc]

/-- The two parts of a block that was read. -/
theorem read_eq_append {buf : Buffer} {off : Nat} {as bs : List UInt8}
    (h : buf.read off (as.length + bs.length) = as ++ bs) :
    buf.read off as.length = as ∧ buf.read (off + as.length) bs.length = bs := by
  rw [read_add] at h
  exact List.append_inj h (by simp)

/-- One block of several ones of the same length that were written. -/
theorem read_write_block {k : Nat} (buf : Buffer) (off : Nat) (bss : List (List UInt8))
    (hlen : ∀ bs ∈ bss, bs.length = k) (i : Nat) (hi : i < bss.length) :
    (buf.write off bss.flatten).read (off + i * k) k = bss[i] := by
  induction bss generalizing buf off i with
  | nil => simp at hi
  | cons bs bss ih =>
    have hbs : bs.length = k := hlen bs List.mem_cons_self
    rw [List.flatten_cons, ← write_write_append, hbs]
    cases i with
    | zero =>
      -- The first block lies in front of the others.
      rw [Nat.zero_mul, Nat.add_zero, read_write_disjoint _ _ (.inl (Nat.le_refl _)), ← hbs]
      exact read_write_self buf off bs
    | succ i =>
      have hnext := ih (buf.write off bs) (off + k) (fun b hb => hlen b (List.mem_cons_of_mem _ hb))
        i (by simpa using hi)
      rw [show off + (i + 1) * k = off + k + i * k by rw [Nat.succ_mul]; omega, hnext]
      rfl

/-- A part of a block that was written. -/
theorem read_write_part (buf : Buffer) (cs : List UInt8) {k m : Nat} (h : k + m ≤ cs.length) :
    (buf.write 0 cs).read k m = (cs.drop k).take m := by
  apply List.ext_getElem
  · rw [length_read, List.length_take, List.length_drop]
    omega
  · intro i hi _
    rw [length_read] at hi
    have hat := write_at buf cs 0 (k + i) (by omega)
    rw [Nat.zero_add] at hat
    simp only [read, List.getElem_map, List.getElem_range, hat, List.getElem_take,
      List.getElem_drop]

/-- Two writes that do not overlap change places. -/
theorem write_comm (buf : Buffer) (as bs : List UInt8) {off off' : Nat}
    (h : off' + bs.length ≤ off) :
    (buf.write off as).write off' bs = (buf.write off' bs).write off as := by
  funext i
  by_cases hi : i < off
  · rw [write_of_lt _ _ hi]
    simp only [write, if_neg (Nat.not_le.mpr hi)]
  · have hout : off' + bs.length ≤ i := by omega
    rw [write_of_ge _ _ hout]
    simp only [write]
    rw [List.getElem?_eq_none (by omega : bs.length ≤ i - off'), Option.getD_none, ite_self]

end Buffer

/-- The number a big-endian block of bytes stands for: `d = d * 256 + byte`, first byte
first. -/
def ofBigEndian (bs : List UInt8) : Nat :=
  bs.foldl (fun d b => d * 256 + b.toNat) 0

/-- The `n` low bytes of `d`, most significant byte first. -/
def toBigEndian : Nat → Nat → List UInt8
  | 0, _ => []
  | n + 1, d => toBigEndian n (d / 256) ++ [UInt8.ofNat (d % 256)]

/-- `n` bytes are written, whatever the number is. -/
@[simp] theorem length_toBigEndian (n d : Nat) : (toBigEndian n d).length = n := by
  induction n generalizing d with
  | zero => rfl
  | succ n ih => simp [toBigEndian, ih]

/-- One more byte at the end shifts the number up by a byte. -/
theorem ofBigEndian_snoc (bs : List UInt8) (b : UInt8) :
    ofBigEndian (bs ++ [b]) = ofBigEndian bs * 256 + b.toNat := by
  simp [ofBigEndian]

/-- The big-endian image keeps the number modulo its width. -/
theorem ofBigEndian_toBigEndian (n d : Nat) :
    ofBigEndian (toBigEndian n d) = d % 256 ^ n := by
  induction n generalizing d with
  | zero => simp [ofBigEndian, toBigEndian, Nat.mod_one]
  | succ n ih =>
    -- The last byte is the remainder, the front holds the quotient.
    have hsplit := Nat.mod_mul (a := 256) (b := 256 ^ n) (x := d)
    rw [← Nat.pow_succ'] at hsplit
    rw [toBigEndian, ofBigEndian_snoc, ih, UInt8.toNat_ofNat', hsplit]
    omega

/-- A number below the width survives the round trip. -/
theorem ofBigEndian_toBigEndian_of_lt {n d : Nat} (h : d < 256 ^ n) :
    ofBigEndian (toBigEndian n d) = d := by
  rw [ofBigEndian_toBigEndian, Nat.mod_eq_of_lt h]

/-- A block of bytes survives the round trip. -/
theorem toBigEndian_ofBigEndian (bs : List UInt8) :
    toBigEndian bs.length (ofBigEndian bs) = bs := by
  induction bs using List.reverseRecOn with
  | nil => rfl
  | append_singleton bs b ih =>
    have hb : b.toNat < 256 := b.toNat_lt
    rw [List.length_append, List.length_singleton, toBigEndian, ofBigEndian_snoc,
      show (ofBigEndian bs * 256 + b.toNat) / 256 = ofBigEndian bs by omega,
      show (ofBigEndian bs * 256 + b.toNat) % 256 = b.toNat by omega, ih, UInt8.ofNat_toNat]

/-- `memcmp` of two blocks of one length: the first bytes that differ decide. -/
def memcmp : List UInt8 → List UInt8 → Ordering
  | a :: as, b :: bs => if a < b then .lt else if b < a then .gt else memcmp as bs
  | _, _ => .eq

/-- The first byte has the highest weight. -/
theorem ofBigEndian_cons (b : UInt8) (bs : List UInt8) :
    ofBigEndian (b :: bs) = b.toNat * 256 ^ bs.length + ofBigEndian bs := by
  induction bs using List.reverseRecOn with
  | nil => simp [ofBigEndian]
  | append_singleton bs c ih =>
    rw [← List.cons_append, ofBigEndian_snoc, ofBigEndian_snoc, ih, List.length_append,
      List.length_singleton, Nat.pow_succ, Nat.add_mul, Nat.mul_assoc, Nat.add_assoc]

/-- A number of `n` bytes is below 256^n. -/
theorem ofBigEndian_lt (bs : List UInt8) : ofBigEndian bs < 256 ^ bs.length := by
  induction bs with
  | nil => exact Nat.one_pos
  | cons b bs ih =>
    have hb : b.toNat + 1 ≤ 256 := b.toNat_lt
    calc ofBigEndian (b :: bs) = b.toNat * 256 ^ bs.length + ofBigEndian bs :=
          ofBigEndian_cons b bs
      _ < (b.toNat + 1) * 256 ^ bs.length := by rw [Nat.succ_mul]; omega
      _ ≤ 256 * 256 ^ bs.length := Nat.mul_le_mul_right _ hb
      _ = 256 ^ (b :: bs).length := (Nat.pow_succ').symm

/-- The byte order of two blocks of one length is the order of the numbers they stand for. -/
theorem memcmp_eq_compare {as bs : List UInt8} (h : as.length = bs.length) :
    memcmp as bs = compare (ofBigEndian as) (ofBigEndian bs) := by
  induction as generalizing bs with
  | nil =>
    cases List.length_eq_zero_iff.mp h.symm
    rfl
  | cons a as ih =>
    obtain ⟨b, bs, rfl⟩ := List.exists_cons_of_length_eq_add_one h.symm
    have hlen : as.length = bs.length := Nat.succ.inj h
    have ha := ofBigEndian_lt as
    have hb := ofBigEndian_lt bs
    -- a smaller first byte outweighs whatever follows
    have hlt : ∀ x y u v : Nat, x < y → u < 256 ^ bs.length →
        x * 256 ^ bs.length + u < y * 256 ^ bs.length + v := by
      intro x y u v hxy hu
      have hstep : (x + 1) * 256 ^ bs.length ≤ y * 256 ^ bs.length := Nat.mul_le_mul_right _ hxy
      rw [Nat.succ_mul] at hstep
      omega
    rw [ofBigEndian_cons, ofBigEndian_cons, hlen]
    rw [hlen] at ha
    show (if a < b then Ordering.lt else if b < a then .gt else memcmp as bs) = _
    split
    · rename_i hab
      exact (compare_lt_iff_lt.mpr (hlt _ _ _ _ (UInt8.lt_iff_toNat_lt.mp hab) ha)).symm
    · split
      · rename_i hba
        exact (compare_gt_iff_gt.mpr (hlt _ _ _ _ (UInt8.lt_iff_toNat_lt.mp hba) hb)).symm
      · rename_i hab hba
        have heq : a.toNat = b.toNat := by
          rw [UInt8.lt_iff_toNat_lt] at hab hba
          omega
        rw [ih hlen, heq]
        simp only [compare, compareOfLessAndEq, Nat.add_lt_add_iff_left, Nat.add_right_inj]

/-- The front of a concatenation is shifted up by the length of the back. -/
theorem ofBigEndian_append (as bs : List UInt8) :
    ofBigEndian (as ++ bs) = ofBigEndian as * 256 ^ bs.length + ofBigEndian bs := by
  induction as with
  | nil => simp [ofBigEndian]
  | cons a as ih =>
    rw [List.cons_append, ofBigEndian_cons, ofBigEndian_cons, ih, List.length_append, Nat.pow_add,
      Nat.add_mul, Nat.mul_assoc, Nat.add_assoc]

/-- The big-endian image in two parts. -/
theorem toBigEndian_add (m n d : Nat) :
    toBigEndian (m + n) d = toBigEndian m (d / 256 ^ n) ++ toBigEndian n d := by
  induction n generalizing d with
  | zero => simp [toBigEndian]
  | succ n ih =>
    rw [← Nat.add_assoc, toBigEndian, toBigEndian, ih, Nat.div_div_eq_div_mul, ← Nat.pow_succ',
      List.append_assoc]

/-- Only the low bytes of the number are in its image. -/
theorem toBigEndian_mod (n d : Nat) : toBigEndian n (d % 256 ^ n) = toBigEndian n d := by
  have hlen : (toBigEndian n d).length = n := length_toBigEndian n d
  calc toBigEndian n (d % 256 ^ n)
      = toBigEndian (toBigEndian n d).length (ofBigEndian (toBigEndian n d)) := by
        rw [hlen, ofBigEndian_toBigEndian]
    _ = toBigEndian n d := toBigEndian_ofBigEndian _

/-- Two blocks of one length are equal if the numbers are. -/
theorem ofBigEndian_inj {as bs : List UInt8} (h : as.length = bs.length) :
    ofBigEndian as = ofBigEndian bs ↔ as = bs := by
  constructor
  · intro heq
    rw [← toBigEndian_ofBigEndian as, heq, h, toBigEndian_ofBigEndian]
  · intro heq
    rw [heq]

/-- The order of the lists, which is lexicographic, is the one of `memcmp`. -/
theorem memcmp_eq_lt_iff {as bs : List UInt8} (h : as.length = bs.length) :
    memcmp as bs = .lt ↔ as < bs := by
  induction as generalizing bs with
  | nil =>
    cases List.length_eq_zero_iff.mp h.symm
    exact ⟨fun h => (by cases h), fun hlt => absurd hlt (List.lt_irrefl [])⟩
  | cons a as ih =>
    obtain ⟨b, bs, rfl⟩ := List.exists_cons_of_length_eq_add_one h.symm
    rw [List.cons_lt_cons_iff, ← ih (Nat.succ.inj h), memcmp]
    split
    · rename_i hab
      exact ⟨fun _ => .inl hab, fun _ => rfl⟩
    · rename_i hab
      split
      · rename_i hba
        refine ⟨fun h => (by cases h), ?_⟩
        rintro (hlt | ⟨rfl, -⟩)
        · exact absurd hlt hab
        · exact absurd hba (UInt8.lt_irrefl _)
      · rename_i hba
        have heq : a = b := UInt8.le_antisymm (UInt8.not_lt.mp hba) (UInt8.not_lt.mp hab)
        exact ⟨fun hlt => .inr ⟨heq, hlt⟩, fun hor => hor.elim (absurd · hab) And.right⟩

/-- The order of two blocks of one length is the order of the numbers they stand for. -/
theorem ofBigEndian_lt_iff {as bs : List UInt8} (h : as.length = bs.length) :
    ofBigEndian as < ofBigEndian bs ↔ as < bs := by
  rw [← memcmp_eq_lt_iff h, memcmp_eq_compare h, compare_lt_iff_lt]

end Awds.Lib
