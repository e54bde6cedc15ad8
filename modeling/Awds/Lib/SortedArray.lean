import Awds.Lib.SortedMerge

/-!
# `Awds.Lib.SortedArray`: ascending arrays

The entries of an array in a list, in ascending order of their keys. `InsertPos xs k p` says
that `p` is the place of the key `k` among them. An entry that goes in there keeps the order
(`Ascending.insert`), and there is no other place for it (`InsertPos.iff_ascending`).
`Ascending.take_lt` and `Ascending.lt_drop` are the two steps of a binary search.

`compact` removes entries in place: it walks over the array and moves each entry that stays
to the front. `compact_eq_filter` says that this is a filter.
-/

set_option autoImplicit false

namespace Awds.Lib

section Ascending

variable {α κ : Type} [LinearOrder κ] {key : α → κ} {xs : List α} {a : α} {k : κ} {p q : Nat}

/-- The place of the key `k`: behind the smaller keys and in front of the greater ones. -/
structure InsertPos (key : α → κ) (xs : List α) (k : κ) (p : Nat) : Prop where
  le : p ≤ xs.length
  below : ∀ a ∈ xs.take p, key a < k
  above : ∀ a ∈ xs.drop p, k < key a

/-- What is in front of an entry has a smaller key. -/
theorem Ascending.take_lt (h : Ascending key xs) (hp : xs[p]? = some a) (hk : key a < k) :
    ∀ b ∈ xs.take (p + 1), key b < k := by
  intro b hb
  rw [List.take_add_one, hp] at hb
  rcases List.mem_append.mp hb with hb | hb
  · have hsplit : xs = xs.take p ++ xs.drop p := (List.take_append_drop p xs).symm
    have hmem : a ∈ xs.drop p := by
      refine List.mem_of_getElem? (i := 0) ?_
      rw [List.getElem?_drop]
      exact hp
    unfold Ascending at h
    rw [hsplit, List.pairwise_append] at h
    exact (h.2.2 b hb a hmem).trans hk
  · cases List.mem_singleton.mp hb
    exact hk

/-- What is behind an entry has a greater key. -/
theorem Ascending.lt_drop (h : Ascending key xs) (hp : xs[p]? = some a) (hk : k < key a) :
    ∀ b ∈ xs.drop p, k < key b := by
  intro b hb
  have hlt : p < xs.length := (List.getElem?_eq_some_iff.mp hp).1
  have hcons : xs.drop p = a :: xs.drop (p + 1) := by
    rw [List.drop_eq_getElem_cons hlt, (List.getElem?_eq_some_iff.mp hp).2]
  have hdrop : (xs.drop p).Pairwise fun a b => key a < key b := List.Pairwise.drop h
  rw [hcons] at hb hdrop
  rcases List.mem_cons.mp hb with rfl | hb
  · exact hk
  · exact hk.trans ((List.pairwise_cons.mp hdrop).1 b hb)

/-- A key is in the array only once. -/
theorem Ascending.index_unique (h : Ascending key xs) {b : α} (hp : xs[p]? = some a)
    (hq : xs[q]? = some b) (hkey : key a = key b) : p = q := by
  obtain ⟨hplt, rfl⟩ := List.getElem?_eq_some_iff.mp hp
  obtain ⟨hqlt, rfl⟩ := List.getElem?_eq_some_iff.mp hq
  have hlt := List.pairwise_iff_getElem.mp h
  rcases Nat.lt_trichotomy p q with hpq | hpq | hpq
  · exact absurd hkey (hlt p q hplt hqlt hpq).ne
  · exact hpq
  · exact absurd hkey.symm (hlt q p hqlt hplt hpq).ne

/-- A key has its place only once. -/
theorem InsertPos.unique (hp : InsertPos key xs k p) (hq : InsertPos key xs k q) : p = q := by
  -- An entry between the two places would be on both sides of the key.
  have hle : ∀ {p q : Nat}, InsertPos key xs k p → InsertPos key xs k q → p ≤ q := by
    intro p q hp hq
    by_contra hlt
    have hlen := hp.le
    have hq' : q < xs.length := by omega
    have hfront : xs[q] ∈ xs.take p := by
      rw [List.mem_take_iff_getElem]
      exact ⟨q, by omega, rfl⟩
    have hback : xs[q] ∈ xs.drop q := by
      rw [List.drop_eq_getElem_cons hq']
      exact List.mem_cons_self
    exact lt_asymm (hp.below _ hfront) (hq.above _ hback)
  exact Nat.le_antisymm (hle hp hq) (hle hq hp)

/-- An entry goes in at the place of its key. -/
theorem Ascending.insert (h : Ascending key xs) (hp : InsertPos key xs (key a) p) :
    Ascending key (xs.take p ++ a :: xs.drop p) := by
  have hsplit : xs = xs.take p ++ xs.drop p := (List.take_append_drop p xs).symm
  unfold Ascending at h ⊢
  rw [hsplit, List.pairwise_append] at h
  rw [List.pairwise_append, List.pairwise_cons]
  refine ⟨h.1, ⟨hp.above, h.2.1⟩, fun b hb c hc => ?_⟩
  rcases List.mem_cons.mp hc with rfl | hc
  · exact hp.below b hb
  · exact h.2.2 b hb c hc

/-- The place of a key is the only one where an entry with the key keeps the order. -/
theorem InsertPos.iff_ascending (h : Ascending key xs) (hp : InsertPos key xs (key a) p)
    (hq : q ≤ xs.length) : Ascending key (xs.take q ++ a :: xs.drop q) ↔ q = p := by
  constructor
  · intro hasc
    unfold Ascending at hasc
    rw [List.pairwise_append, List.pairwise_cons] at hasc
    exact InsertPos.unique ⟨hq, fun b hb => hasc.2.2 b hb a List.mem_cons_self, hasc.2.1.1⟩ hp
  · rintro rfl
    exact h.insert hp

/-- An entry may be replaced by one with the same key. -/
theorem Ascending.set (h : Ascending key xs) {b : α} (hp : xs[p]? = some a)
    (hkey : key b = key a) : Ascending key (xs.set p b) := by
  obtain ⟨hlt, hget⟩ := List.getElem?_eq_some_iff.mp hp
  have hkeys : (xs.set p b).map key = xs.map key := by
    have hold : (xs.map key).get ⟨p, by rwa [List.length_map]⟩ = key b := by
      rw [List.get_eq_getElem, List.getElem_map, hget, hkey]
    rw [List.map_set, ← hold]
    exact List.set_getElem_self _
  unfold Ascending at h ⊢
  rw [← List.pairwise_map] at h ⊢
  rw [hkeys]
  exact h

/-- The entries behind an insertion: the new one and the old ones. -/
theorem mem_insertAt {x : α} : x ∈ xs.take p ++ a :: xs.drop p ↔ x = a ∨ x ∈ xs := by
  have hsplit : x ∈ xs ↔ x ∈ xs.take p ∨ x ∈ xs.drop p := by
    rw [← List.mem_append, List.take_append_drop]
  rw [List.mem_append, List.mem_cons, hsplit]
  exact or_left_comm

/-- The entries behind a replacement: the new one, and the old ones with other keys. -/
theorem Ascending.mem_set_iff (h : Ascending key xs) (hp : xs[p]? = some a) {b x : α} :
    x ∈ xs.set p b ↔ x = b ∨ x ∈ xs ∧ key x ≠ key a := by
  constructor
  · intro hx
    obtain ⟨q, hq⟩ := List.mem_iff_getElem?.mp hx
    by_cases hpq : p = q
    · subst hpq
      rw [List.getElem?_set_self (List.getElem?_eq_some_iff.mp hp).1] at hq
      exact .inl (Option.some.inj hq).symm
    · -- The keys ascend, so another index has another key.
      rw [List.getElem?_set_ne hpq] at hq
      exact .inr ⟨List.mem_of_getElem? hq, fun hkey => hpq (h.index_unique hp hq hkey.symm)⟩
  · rintro (rfl | ⟨hx, hne⟩)
    · exact List.mem_set (List.getElem?_eq_some_iff.mp hp).1 _
    · obtain ⟨q, hq⟩ := List.mem_iff_getElem?.mp hx
      have hpq : p ≠ q := by
        rintro rfl
        cases hp.symm.trans hq
        exact hne rfl
      exact List.mem_iff_getElem?.mpr ⟨q, (List.getElem?_set_ne hpq).trans hq⟩

/-- What is left after some entries were removed. -/
theorem Ascending.filter (h : Ascending key xs) (keep : α → Bool) :
    Ascending key (xs.filter keep) := List.Pairwise.filter keep h

end Ascending

section Compact

variable {α : Type}

/-- The loop of the compaction, `n` turns from the index `i` on, with the number of entries
that stay so far. -/
def compactLoop (keep : α → Bool) : Nat → Nat → Nat → List α → List α × Nat
  | 0, _, newnum, xs => (xs, newnum)
  | n + 1, i, newnum, xs =>
    match xs[i]? with
    | none => (xs, newnum)
    | some a =>
      if keep a then
        compactLoop keep n (i + 1) (newnum + 1) (if newnum ≠ i then xs.set newnum a else xs)
      else compactLoop keep n (i + 1) newnum xs

/-- Moves the entries that stay to the front, and cuts the array behind them. -/
def compact (keep : α → Bool) (xs : List α) : List α :=
  let (xs', newnum) := compactLoop keep xs.length 0 0 xs
  xs'.take newnum

/-- What the loop leaves: in front the entries that stay, behind the index the entries that
it has not seen. -/
theorem compactLoop_spec (keep : α → Bool) (orig : List α) (n i newnum : Nat) (xs : List α)
    (hn : i + n = orig.length) (hlen : xs.length = orig.length) (hle : newnum ≤ i)
    (hfront : xs.take newnum = (orig.take i).filter keep) (hback : xs.drop i = orig.drop i) :
    (compactLoop keep n i newnum xs).1.take (compactLoop keep n i newnum xs).2
      = orig.filter keep := by
  -- The entries between `newnum` and `i` are garbage, so the invariant leaves them out.
  induction n generalizing i newnum xs with
  | zero =>
    rw [compactLoop, hfront, show i = orig.length by omega, List.take_length]
  | succ n ih =>
    have hi : i < orig.length := by omega
    have hget : xs[i]? = some orig[i] := by
      have hhead := congrArg List.head? hback
      rw [List.head?_drop, List.head?_drop] at hhead
      rw [hhead, List.getElem?_eq_getElem hi]
    have hnext : xs.drop (i + 1) = orig.drop (i + 1) := by
      rw [← List.drop_drop, hback, List.drop_drop]
    have htake : orig.take (i + 1) = orig.take i ++ [orig[i]] := by
      rw [List.take_add_one, List.getElem?_eq_getElem hi]
      rfl
    rw [compactLoop, hget]
    simp only
    split
    · rename_i hkeep
      refine ih (i + 1) (newnum + 1) _ (by omega) ?_ (by omega) ?_ ?_
      · split
        · rw [List.length_set, hlen]
        · exact hlen
      · -- The entry is moved behind those that stay, or it is there already.
        have hmoved : (if newnum ≠ i then xs.set newnum orig[i] else xs).take (newnum + 1)
            = xs.take newnum ++ [orig[i]] := by
          split
          · rw [List.take_add_one, List.getElem?_set_self (by omega),
              List.take_set_of_le (Nat.le_refl _)]
            rfl
          · rename_i hne
            rw [List.take_add_one, not_not.mp hne, hget]
            rfl
        rw [hmoved, hfront, htake, List.filter_append, List.filter_singleton, hkeep, cond_true]
      · split
        · rw [List.drop_set_of_lt (by omega), hnext]
        · exact hnext
    · rename_i hkeep
      have hkeep : keep orig[i] = false := by simpa using hkeep
      refine ih (i + 1) newnum xs (by omega) hlen (by omega) ?_ hnext
      rw [hfront, htake, List.filter_append, List.filter_singleton, hkeep, cond_false,
        List.append_nil]

/-- The compaction is a filter. -/
theorem compact_eq_filter (keep : α → Bool) (xs : List α) : compact keep xs = xs.filter keep :=
  compactLoop_spec keep xs xs.length 0 0 xs (by omega) rfl (Nat.le_refl 0) (by simp) rfl

end Compact

end Awds.Lib
