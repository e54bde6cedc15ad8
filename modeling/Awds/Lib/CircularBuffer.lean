import Awds.Lib.Bytes

/-!
# `Awds.Lib.CircularBuffer`: a buffer that is written round and round

`Laid cells size l` says that `size` cells hold the end of the stream `l`: its element `i` is in
the cell `i % size`, for each of the last `size` elements. The next element goes into the cell
`l.length % size`.

* `Laid.append`: a block behind the stream, wherever it is wrapped.
* `Laid.write_front`, `Laid.write_wrap`: the writes of a block of bytes, in one piece and in two.
* `Laid.read_front`, `Laid.read_wrap`: the reads of the last bytes, in one piece and in two.
* `Laid.mem_cells`: the cells hold the last `size` elements and nothing else.
-/

set_option autoImplicit false

namespace Awds.Lib

/-! ### Positions -/

/-- The position `m` places in front of the position `n`. -/
theorem sub_mod_wrap {size n m : Nat} (hn : m ≤ n) (hsize : m ≤ size) (hpos : 0 < m) :
    (n - m) % size = if m ≤ n % size then n % size - m else n % size + size - m := by
  have hdiv := Nat.div_add_mod n size
  have hlt := Nat.mod_lt n (show 0 < size by omega)
  by_cases hle : m ≤ n % size
  · rw [if_pos hle, show n - m = n % size - m + size * (n / size) by omega,
      Nat.add_mul_mod_self_left, Nat.mod_eq_of_lt (by omega)]
  · -- the position lies in the round before
    obtain ⟨q, hq⟩ : ∃ q, n / size = q + 1 := by
      refine Nat.exists_eq_succ_of_ne_zero fun hzero => ?_
      rw [hzero] at hdiv
      omega
    rw [hq, Nat.mul_succ] at hdiv
    rw [if_neg hle, show n - m = n % size + size - m + size * q by omega,
      Nat.add_mul_mod_self_left, Nat.mod_eq_of_lt (by omega)]

/-- The position `j` places behind the position `n`. -/
theorem add_mod_wrap {size n j : Nat} (hj : j < size) :
    (n + j) % size = if size ≤ n % size + j then n % size + j - size else n % size + j := by
  rw [Nat.add_mod_eq_ite, Nat.mod_eq_of_lt hj]

/-! ### The end of a stream -/

section

variable {α : Type} {l t d : List α}

/-- The last `n` elements are `n`, or all of them. -/
theorem length_rtake (l : List α) (n : Nat) : (l.rtake n).length = min n l.length := by
  rw [List.rtake, List.length_drop]
  omega

/-- The last of the last ones. -/
theorem rtake_rtake (l : List α) {m n : Nat} (h : m ≤ n) : (l.rtake n).rtake m = l.rtake m := by
  simp [List.rtake_eq_reverse_take_reverse, List.take_take, Nat.min_eq_left h]

/-- The end behind a block depends on the end in front of it. -/
theorem rtake_append_congr {n : Nat} (h : t.rtake n = l.rtake n) (d : List α) :
    (t ++ d).rtake n = (l ++ d).rtake n := by
  simp only [List.rtake_eq_reverse_take_reverse, List.reverse_inj] at h ⊢
  have hfront : ∀ m ≤ n, t.reverse.take m = l.reverse.take m := by
    intro m hm
    rw [← Nat.min_eq_left hm, ← List.take_take, ← List.take_take, h]
  rw [List.reverse_append, List.reverse_append, List.take_append, List.take_append,
    hfront _ (Nat.sub_le _ _)]

/-- A block with `n` elements at least is the end, whatever is in front of it. -/
theorem rtake_append_of_le {n : Nat} (h : n ≤ d.length) (l : List α) :
    (l ++ d).rtake n = d.rtake n := by
  rw [List.rtake, List.rtake, List.length_append, List.drop_append]
  rw [List.drop_of_length_le (by omega), List.nil_append]
  congr 1
  omega

end

/-! ### The cells -/

section

variable {α : Type} {cells cells' : Nat → α} {size : Nat} {l d : List α}

/-- The cells hold the last `size` elements of the stream, each in its place. -/
def Laid (cells : Nat → α) (size : Nat) (l : List α) : Prop :=
  ∀ i (h : i < l.length), l.length ≤ i + size → cells (i % size) = l[i]

/-- An empty list needs no cells. -/
theorem laid_nil (cells : Nat → α) (size : Nat) : Laid cells size [] := by
  intro i hi _
  cases hi

/-- The first elements, in their order. -/
theorem laid_first (h : ∀ i (hi : i < l.length), cells i = l[i]) (hsize : l.length ≤ size) :
    Laid cells size l := by
  intro i hi _
  rw [Nat.mod_eq_of_lt (hi.trans_le hsize)]
  exact h i hi

/-- A block of at most `size` elements, behind the stream. -/
theorem Laid.append (h : Laid cells size l) (hd : d.length ≤ size)
    (hnew : ∀ j (hj : j < d.length), cells' ((l.length + j) % size) = d[j])
    (hold : ∀ k < size, (∀ j < d.length, (l.length + j) % size ≠ k) → cells' k = cells k) :
    Laid cells' size (l ++ d) := by
  intro i hi hlast
  rw [List.length_append] at hi hlast
  by_cases hfront : i < l.length
  · rw [List.getElem_append_left hfront, ← h i hfront (by omega)]
    refine hold _ (Nat.mod_lt _ (by omega)) fun j hj heq => ?_
    -- the two positions are less than a round apart
    have hround := Nat.sub_mod_eq_zero_of_mod_eq heq
    rw [Nat.mod_eq_of_lt (by omega)] at hround
    omega
  · rw [List.getElem_append_right (by omega), ← hnew (i - l.length) (by omega)]
    congr 2
    omega

/-- The cell of the `m`-th element from the end. -/
theorem Laid.cell (h : Laid cells size l) {m : Nat} (hpos : 0 < m) (hl : m ≤ l.length)
    (hsize : m ≤ size) :
    cells (if m ≤ l.length % size then l.length % size - m else l.length % size + size - m) =
      l[l.length - m] := by
  rw [← sub_mod_wrap hl hsize hpos]
  exact h _ (by omega) (by omega)

/-- The place of a cell, counted from the end of the stream. -/
theorem exists_back {n k : Nat} (hk : k < size) : ∃ m, 0 < m ∧ m ≤ size ∧
    (if m ≤ n % size then n % size - m else n % size + size - m) = k := by
  have hstop := Nat.mod_lt n (Nat.zero_lt_of_lt hk)
  by_cases hfront : k < n % size
  · exact ⟨n % size - k, by omega, by omega, by rw [if_pos (by omega)]; omega⟩
  · -- the cell was written in the round before
    exact ⟨n % size + size - k, by omega, by omega, by rw [if_neg (by omega)]; omega⟩

/-- When all the cells are written, they hold the last elements. -/
theorem Laid.mem_cells (h : Laid cells size l) (hl : size ≤ l.length) (x : α) :
    (∃ k < size, cells k = x) ↔ x ∈ l.rtake size := by
  rw [List.rtake, List.mem_drop_iff_getElem]
  constructor
  · rintro ⟨k, hk, rfl⟩
    obtain ⟨m, hpos, hsize, hcell⟩ := exists_back (n := l.length) hk
    refine ⟨size - m, by omega, ?_⟩
    rw [← hcell, h.cell hpos (by omega) hsize]
    congr 1
    omega
  · rintro ⟨i, hi, rfl⟩
    exact ⟨_, Nat.mod_lt _ (by omega), h _ (by omega) (by omega)⟩

end

/-! ### Blocks of bytes -/

section

variable {buf : Buffer} {size n : Nat} {l d : List UInt8}

/-- A block that fits in front of the end of the buffer. -/
theorem Laid.write_front (h : Laid buf size l) (hfit : l.length % size + d.length ≤ size) :
    Laid (buf.write (l.length % size) d) size (l ++ d) := by
  have hplace : ∀ j < d.length, (l.length + j) % size = l.length % size + j := by
    intro j hj
    rw [add_mod_wrap (by omega), if_neg (by omega)]
  refine h.append (by omega) (fun j hj => ?_) fun k _ hother => ?_
  · rw [hplace j hj]
    exact Buffer.write_at _ _ _ _ hj
  · refine Buffer.write_of_outside _ _ ?_
    by_contra hin
    refine hother (k - l.length % size) (by omega) ?_
    rw [hplace _ (by omega)]
    omega

/-- A block that does not: the rest of it is written at the start. -/
theorem Laid.write_wrap (h : Laid buf size l) (hsize : d.length ≤ size)
    (hover : size ≤ l.length % size + d.length) :
    Laid ((buf.write (l.length % size) (d.take (size - l.length % size))).write 0
      (d.drop (size - l.length % size))) size (l ++ d) := by
  by_cases hpos : size = 0
  · subst hpos
    rw [List.length_eq_zero_iff.mp (Nat.le_zero.mp hsize)]
    simpa using h
  have hstop := Nat.mod_lt l.length (Nat.pos_of_ne_zero hpos)
  -- the first part ends with the buffer, and the second one ends in front of it
  have htake : (d.take (size - l.length % size)).length = size - l.length % size := by
    rw [List.length_take]
    omega
  have hdrop : (d.drop (size - l.length % size)).length =
      d.length - (size - l.length % size) := List.length_drop
  refine h.append hsize (fun j hj => ?_) fun k hk hother => ?_
  · rw [add_mod_wrap (by omega)]
    by_cases hwrap : size ≤ l.length % size + j
    · rw [if_pos hwrap, ← Nat.zero_add (l.length % size + j - size),
        Buffer.write_at _ _ _ _ (by omega), List.getElem_drop]
      congr 1
      omega
    · rw [if_neg hwrap, Buffer.write_of_ge _ _ (by omega),
        Buffer.write_at _ _ _ _ (by omega), List.getElem_take]
  · have hbefore : k < l.length % size := by
      by_contra hin
      refine hother (k - l.length % size) (by omega) ?_
      rw [add_mod_wrap (by omega), if_neg (by omega)]
      omega
    have hbehind : d.length - (size - l.length % size) ≤ k := by
      by_contra hin
      refine hother (k + size - l.length % size) (by omega) ?_
      rw [add_mod_wrap (by omega), if_pos (by omega)]
      omega
    rw [Buffer.write_of_ge _ _ (by omega), Buffer.write_of_lt _ _ hbefore]

/-- The last bytes lie in one piece. -/
theorem Laid.read_front (h : Laid buf size l) (hn : n ≤ l.length % size) (hl : n ≤ l.length)
    (hsize : n ≤ size) : buf.read (l.length % size - n) n = l.rtake n := by
  apply List.ext_getElem
  · rw [Buffer.length_read, length_rtake]
    omega
  · intro j hj _
    rw [Buffer.length_read] at hj
    have hcell := h.cell (m := n - j) (by omega) (by omega) (by omega)
    rw [if_pos (by omega)] at hcell
    simp only [Buffer.read, List.rtake, List.getElem_map, List.getElem_range, List.getElem_drop]
    rw [show l.length % size - n + j = l.length % size - (n - j) by omega, hcell]
    congr 1
    omega

/-- The last bytes lie at the end of the buffer and at its start. -/
theorem Laid.read_wrap (h : Laid buf size l) (hn : l.length % size < n) (hl : n ≤ l.length)
    (hsize : n ≤ size) :
    buf.read (l.length % size + size - n) (n - l.length % size) ++ buf.read 0 (l.length % size) =
      l.rtake n := by
  apply List.ext_getElem
  · rw [List.length_append, Buffer.length_read, Buffer.length_read, length_rtake]
    omega
  · -- The element `j` of the result lies in the cell that the layout gives to its distance from the
    -- end.
    intro j hj hj'
    rw [List.length_append, Buffer.length_read, Buffer.length_read] at hj
    have hcell := h.cell (m := n - j) (by omega) (by omega) (by omega)
    have hend : (l.rtake n)[j] = l[l.length - (n - j)] := by
      simp only [List.rtake, List.getElem_drop]
      congr 1
      omega
    rw [hend, ← hcell]
    -- The first read ends at the end of the buffer, the second one begins at its start.
    by_cases hfirst : j < n - l.length % size
    · rw [if_neg (by omega), List.getElem_append_left (by simpa using hfirst)]
      simp only [Buffer.read, List.getElem_map, List.getElem_range]
      congr 1
      omega
    · rw [if_pos (by omega), List.getElem_append_right (by simpa using hfirst)]
      simp only [Buffer.read, List.getElem_map, List.getElem_range, List.length_map,
        List.length_range]
      congr 1
      omega

end

end Awds.Lib
