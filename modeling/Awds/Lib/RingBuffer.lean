import Mathlib

/-!
# `Awds.Lib.RingBuffer`: the last entries of a stream

A `Ring α cap` keeps the last `cap` entries of a stream in `cap` slots. `insert` advances
the position `last`, wraps it at `cap` and overwrites the slot there, so the oldest entry
goes first. `search` walks back from `last` over the entries that were written.

`recent` is the content as a list, newest entry first. The two laws say that `insert` puts
the new entry in front of it and cuts it at `cap`, and that `search` finds exactly what it
holds. `HoldsWithin` counts how many entries came in behind a given one, which stays held
until `cap` others have come in.
-/

set_option autoImplicit false

namespace Awds.Lib

/-- A ring of `cap` slots, of which the `count` ones behind `last` are written. -/
structure Ring (α : Type) (cap : Nat) where
  slots : Nat → α
  last : Nat
  count : Nat
  last_lt : last < cap
  count_le : count ≤ cap

namespace Ring

section

variable {α : Type} {cap : Nat}

/-- Writes an entry into the next slot. -/
def insert (r : Ring α cap) (a : α) : Ring α cap where
  slots := Function.update r.slots ((r.last + 1) % cap) a
  last := (r.last + 1) % cap
  count := min (r.count + 1) cap
  last_lt := Nat.mod_lt _ (Nat.zero_lt_of_lt r.last_lt)
  count_le := Nat.min_le_right _ _

/-- The slot before `p`. -/
def prev (cap p : Nat) : Nat := if p = 0 then cap - 1 else p - 1

/-- Looks at `n` slots from `p` backwards. -/
def searchFrom (slots : Nat → α) (cap : Nat) (test : α → Bool) : Nat → Nat → Bool
  | 0, _ => false
  | n + 1, p => if test (slots p) then true else searchFrom slots cap test n (prev cap p)

/-- Whether a written entry passes the test. -/
def search (r : Ring α cap) (test : α → Bool) : Bool :=
  searchFrom r.slots cap test r.count r.last

/-- The `n` slots from `p` backwards. -/
def back (slots : Nat → α) (cap : Nat) : Nat → Nat → List α
  | 0, _ => []
  | n + 1, p => slots p :: back slots cap n (prev cap p)

/-- The written entries, newest first. -/
def recent (r : Ring α cap) : List α := back r.slots cap r.count r.last

/-! ### Walking back -/

/-- The slot before one of the slots is one of them. -/
theorem prev_lt {p : Nat} (h : p < cap) : prev cap p < cap := by
  unfold prev
  split <;> omega

/-- The slot behind the next one is the slot itself. -/
theorem prev_succ {p : Nat} (h : p < cap) : prev cap ((p + 1) % cap) = p := by
  unfold prev
  by_cases hwrap : p + 1 = cap
  · simp only [hwrap, Nat.mod_self, if_true]
    omega
  · rw [Nat.mod_eq_of_lt (by omega)]
    simp

/-- The search goes back over the slots, so it is a search in the list of their contents. -/
theorem searchFrom_eq (slots : Nat → α) (test : α → Bool) (n p : Nat) :
    searchFrom slots cap test n p = (back slots cap n p).any test := by
  induction n generalizing p with
  | zero => rfl
  | succ n ih =>
    simp only [searchFrom, back, List.any_cons, ih]
    cases test (slots p) <;> rfl

/-- Fewer than `cap` steps back from the slot `p` do not meet the slot behind it, so a write
there is not seen. -/
theorem back_update (slots : Nat → α) (a : α) {q : Nat} (n : Nat) {p : Nat} (hp : p < cap)
    (hq : q < cap) (hn : n ≤ (p + cap - q) % cap) :
    back (Function.update slots q a) cap n p = back slots cap n p := by
  induction n generalizing p with
  | zero => rfl
  | succ n ih =>
    have hne : p ≠ q := by
      rintro rfl
      rw [Nat.add_sub_cancel_left, Nat.mod_self] at hn
      omega
    -- One step back shortens the way to `q` by one.
    have hstep : (prev cap p + cap - q) % cap = (p + cap - q) % cap - 1 := by
      unfold prev
      rcases Nat.lt_or_gt_of_ne hne with hlt | hgt
      · rw [Nat.mod_eq_of_lt (show p + cap - q < cap by omega)]
        split
        · rw [show cap - 1 + cap - q = (cap - 1 - q) + cap by omega, Nat.add_mod_right,
            Nat.mod_eq_of_lt (by omega)]
          omega
        · rw [Nat.mod_eq_of_lt (by omega)]
          omega
      · rw [if_neg (by omega), show p + cap - q = (p - q) + cap by omega,
          show p - 1 + cap - q = (p - 1 - q) + cap by omega, Nat.add_mod_right,
          Nat.add_mod_right, Nat.mod_eq_of_lt (by omega), Nat.mod_eq_of_lt (by omega)]
        omega
    rw [back, back, Function.update_of_ne hne, ih (prev_lt hp) (by omega)]

/-- Going back over `n` slots gives `n` elements. -/
theorem length_back (slots : Nat → α) (n p : Nat) : (back slots cap n p).length = n := by
  induction n generalizing p with
  | zero => rfl
  | succ n ih => simp [back, ih]

/-- The last `k` elements come first. -/
theorem back_take (slots : Nat → α) (n k p : Nat) (h : k ≤ n) :
    (back slots cap n p).take k = back slots cap k p := by
  induction k generalizing n p with
  | zero => simp [back]
  | succ k ih =>
    cases n with
    | zero => omega
    | succ n => simp [back, ih n (prev cap p) (by omega)]

/-! ### The content -/

/-- `search` finds exactly what the ring holds. -/
theorem search_eq (r : Ring α cap) (test : α → Bool) : r.search test = r.recent.any test :=
  searchFrom_eq _ _ _ _

/-- An entry that comes in stands in front, and the ring keeps `cap` entries. -/
theorem recent_insert (r : Ring α cap) (a : α) :
    (r.insert a).recent = (a :: r.recent).take cap := by
  obtain ⟨m, rfl⟩ : ∃ m, cap = m + 1 := ⟨cap - 1, by have := r.last_lt; omega⟩
  have hcount : min (r.count + 1) (m + 1) = min r.count m + 1 := by omega
  -- The way back from the old position to the slot that is written has `m` steps.
  have hway : min r.count m ≤
      (r.last + (m + 1) - (r.last + 1) % (m + 1)) % (m + 1) := by
    have hlast := r.last_lt
    by_cases hwrap : r.last + 1 = m + 1
    · rw [hwrap, Nat.mod_self, Nat.sub_zero, Nat.add_mod_right, Nat.mod_eq_of_lt hlast]
      omega
    · rw [Nat.mod_eq_of_lt (show r.last + 1 < m + 1 by omega),
        show r.last + (m + 1) - (r.last + 1) = m by omega, Nat.mod_eq_of_lt (by omega)]
      omega
  unfold recent insert
  simp only [hcount, back, Function.update_self, prev_succ r.last_lt]
  rw [back_update r.slots a (min r.count m) r.last_lt
      (Nat.mod_lt _ (Nat.succ_pos m)) hway, List.take_succ_cons]
  congr 1
  rcases Nat.le_total r.count m with hle | hle
  · rw [Nat.min_eq_left hle, List.take_of_length_le (by rw [length_back]; exact hle)]
  · rw [Nat.min_eq_right hle, back_take _ _ _ _ hle]

/-- Entries that come in one after another. -/
theorem recent_foldl_insert (r : Ring α cap) (l : List α) :
    (l.foldl insert r).recent = (l.reverse ++ r.recent).take cap := by
  induction l generalizing r with
  | nil =>
    rw [List.foldl_nil, List.reverse_nil, List.nil_append, List.take_of_length_le]
    rw [recent, length_back]
    exact r.count_le
  | cons a l ih =>
    rw [List.foldl_cons, ih, recent_insert, List.reverse_cons, List.append_assoc,
      List.singleton_append]
    -- what is cut off by the first entry is cut off at the end, too
    rw [List.take_append, List.take_append, List.take_take, Nat.min_eq_left (Nat.sub_le _ _)]

/-- The entry `a` is held and at most `n` entries came in behind it. -/
def HoldsWithin (r : Ring α cap) (a : α) (n : Nat) : Prop := a ∈ r.recent.take (n + 1)

/-- What is held within the last `n` insertions is among the recent ones. -/
theorem HoldsWithin.mem {r : Ring α cap} {a : α} {n : Nat} (h : r.HoldsWithin a n) :
    a ∈ r.recent := List.mem_of_mem_take h

/-- A new entry is the first one. -/
theorem holdsWithin_insert_self (r : Ring α cap) (a : α) (n : Nat) :
    (r.insert a).HoldsWithin a n := by
  obtain ⟨m, rfl⟩ : ∃ m, cap = m + 1 := ⟨cap - 1, by have := r.last_lt; omega⟩
  simp [HoldsWithin, recent_insert]

/-- One more entry pushes `a` back by one place. It stays held as long as fewer than `cap`
entries came in behind it. -/
theorem HoldsWithin.insert {r : Ring α cap} {a : α} {n : Nat} (h : r.HoldsWithin a n)
    (b : α) (hn : n + 1 < cap) : (r.insert b).HoldsWithin a (n + 1) := by
  unfold HoldsWithin at h ⊢
  rw [recent_insert, List.take_take, Nat.min_eq_left (by omega), List.take_succ_cons]
  exact List.mem_cons_of_mem b h

end

end Ring

end Awds.Lib
