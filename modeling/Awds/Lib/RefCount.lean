import Mathlib

/-!
# `Awds.Lib.RefCount`: reference counters

A map from keys to 16-bit counters, which has an entry for exactly the keys that are in use.
`addRef` counts a use of a key. `dropRef` takes one back and removes the entry with the last
one; there has to be an entry.

`Counts m f` says that the counters of `m` are the numbers of uses `f`, and that these are
below the 2^16 uses that bring a counter back to 0. The two laws `Counts.addRefs` and
`Counts.dropRefs` say what a list of uses does to it.
-/

set_option autoImplicit false

namespace Awds.Lib

open Std (ExtTreeMap)

section

variable {κ : Type} [Ord κ] [Std.TransOrd κ] [Std.LawfulEqOrd κ] [DecidableEq κ]

/-- The counters. -/
abbrev RefCounts (κ : Type) [Ord κ] := ExtTreeMap κ Int16 compare

/-- Counts a use. -/
def addRef (m : RefCounts κ) (k : κ) : RefCounts κ :=
  match m[k]? with
  | none => m.insert k 1
  | some c => m.insert k (c + 1)

/-- Takes a use back. -/
def dropRef (m : RefCounts κ) (k : κ) : Option (RefCounts κ) :=
  match m[k]? with
  | none => none
  | some c => if c - 1 = 0 then some (m.erase k) else some (m.insert k (c - 1))

/-- The counters are the numbers of uses. -/
structure Counts (m : RefCounts κ) (f : κ → Nat) : Prop where
  fits : ∀ k, f k < 2 ^ 16
  entry : ∀ k, m[k]? = if f k = 0 then none else some (Int16.ofNat (f k))

/-- The number of uses that the counter of a key shows. -/
def refs (m : RefCounts κ) (k : κ) : Nat :=
  match m[k]? with
  | none => 0
  | some c => c.toBitVec.toNat

variable {m : RefCounts κ} {f : κ → Nat} {k : κ}

omit [Std.LawfulEqOrd κ] [DecidableEq κ] in
/-- The counters show the numbers of uses. -/
theorem Counts.refs_eq (h : Counts m f) (k : κ) : refs m k = f k := by
  unfold refs
  rw [h.entry k]
  by_cases h0 : f k = 0
  · rw [if_pos h0, h0]
  · rw [if_neg h0]
    show (BitVec.ofNat 16 (f k)).toNat = f k
    rw [BitVec.toNat_ofNat, Nat.mod_eq_of_lt (h.fits k)]

/-- A use more. -/
theorem Counts.addRef (h : Counts m f) (hfit : f k + 1 < 2 ^ 16) :
    Counts (addRef m k) (Function.update f k (f k + 1)) := by
  -- Both branches insert one entry. What they have to agree on is its value.
  have hentry : ∀ c, Int16.ofNat (f k + 1) = c → Counts (m.insert k c)
      (Function.update f k (f k + 1)) := by
    intro c hc
    constructor
    · intro j
      by_cases hj : j = k
      · rw [hj, Function.update_self]
        exact hfit
      · rw [Function.update_of_ne hj]
        exact h.fits j
    · intro j
      rw [ExtTreeMap.getElem?_insert]
      by_cases hj : j = k
      · subst hj
        rw [Function.update_self, if_pos (by simp), if_neg (by omega), hc]
      · rw [Function.update_of_ne hj, if_neg (by simpa using fun h => hj h.symm), h.entry j]
  unfold Awds.Lib.addRef
  rw [h.entry k]
  by_cases h0 : f k = 0
  · rw [if_pos h0]
    refine hentry 1 ?_
    rw [h0]
    rfl
  · -- The stored counter goes up by one. It does not wrap, because the new count fits.
    rw [if_neg h0]
    exact hentry _ (Int16.ofNat_add _ _)

/-- A use less. -/
theorem Counts.dropRef (h : Counts m f) (hpos : 0 < f k) :
    ∃ m', dropRef m k = some m' ∧ Counts m' (Function.update f k (f k - 1)) := by
  obtain ⟨n, hn⟩ : ∃ n, f k = n + 1 := ⟨f k - 1, by omega⟩
  have hfit := h.fits k
  have hpred : Int16.ofNat (n + 1) - 1 = Int16.ofNat n := by
    rw [Int16.ofNat_add]
    exact Int16.add_sub_cancel _ _
  -- The count fits into 16 bits, so the counter is 0 only when the last use is gone.
  have hzero : Int16.ofNat n = 0 ↔ n = 0 := by
    rw [← Int16.toBitVec_inj, ← BitVec.toNat_inj]
    show (BitVec.ofNat 16 n).toNat = 0 ↔ n = 0
    rw [BitVec.toNat_ofNat, Nat.mod_eq_of_lt (by omega)]
  have hfits : ∀ j, Function.update f k n j < 2 ^ 16 := by
    intro j
    by_cases hj : j = k
    · rw [hj, Function.update_self]
      omega
    · rw [Function.update_of_ne hj]
      exact h.fits j
  unfold Awds.Lib.dropRef
  rw [h.entry k, if_neg (by omega), hn]
  simp only [hpred, Nat.add_sub_cancel]
  by_cases h0 : n = 0
  · refine ⟨_, if_pos (hzero.mpr h0), hfits, fun j => ?_⟩
    rw [ExtTreeMap.getElem?_erase]
    by_cases hj : j = k
    · subst hj
      rw [Function.update_self, if_pos (by simp), if_pos h0]
    · rw [Function.update_of_ne hj, if_neg (by simpa using fun h => hj h.symm), h.entry j]
  · refine ⟨_, if_neg fun hc => h0 (hzero.mp hc), hfits, fun j => ?_⟩
    rw [ExtTreeMap.getElem?_insert]
    by_cases hj : j = k
    · subst hj
      rw [Function.update_self, if_pos (by simp), if_neg h0]
    · rw [Function.update_of_ne hj, if_neg (by simpa using fun h => hj h.symm), h.entry j]

/-- The uses of a list more. -/
theorem Counts.addRefs (ks : List κ) (h : Counts m f)
    (hfit : ∀ k, f k + ks.count k < 2 ^ 16) :
    Counts (ks.foldl Awds.Lib.addRef m) fun k => f k + ks.count k := by
  induction ks generalizing m f with
  | nil => exact h
  | cons k ks ih =>
    have hcount : ∀ j, Function.update f k (f k + 1) j + ks.count j
        = f j + (k :: ks).count j := by
      intro j
      rw [List.count_cons]
      by_cases hj : j = k
      · subst hj
        rw [Function.update_self, if_pos (by simp)]
        omega
      · rw [Function.update_of_ne hj, if_neg (by simpa using fun h => hj h.symm)]
        omega
    have hone := h.addRef (k := k) (by
      have := hfit k
      rw [List.count_cons_self] at this
      omega)
    have hrest := ih hone fun j => by rw [hcount j]; exact hfit j
    simp only [hcount] at hrest
    exact hrest

/-- The uses of a list less. -/
theorem Counts.dropRefs (ks : List κ) (h : Counts m f) (huse : ∀ k, ks.count k ≤ f k) :
    ∃ m', ks.foldlM Awds.Lib.dropRef m = some m' ∧ Counts m' fun k => f k - ks.count k := by
  induction ks generalizing m f with
  | nil => exact ⟨m, rfl, h⟩
  | cons k ks ih =>
    have hcount : ∀ j, Function.update f k (f k - 1) j - ks.count j
        = f j - (k :: ks).count j := by
      intro j
      rw [List.count_cons]
      by_cases hj : j = k
      · subst hj
        rw [Function.update_self, if_pos (by simp)]
        omega
      · rw [Function.update_of_ne hj, if_neg (by simpa using fun h => hj h.symm)]
        omega
    -- Enough uses are left for the rest of the list.
    have huse' : ∀ j, ks.count j ≤ Function.update f k (f k - 1) j := by
      intro j
      have := huse j
      rw [List.count_cons] at this
      by_cases hj : j = k
      · subst hj
        rw [if_pos (by simp)] at this
        rw [Function.update_self]
        omega
      · rw [Function.update_of_ne hj]
        omega
    obtain ⟨m1, hm1, hone⟩ := h.dropRef (k := k) (by
      have := huse k
      rw [List.count_cons_self] at this
      omega)
    obtain ⟨m', hm', hrest⟩ := ih hone huse'
    refine ⟨m', ?_, by simpa only [hcount] using hrest⟩
    rw [List.foldlM_cons, hm1]
    exact hm'

end

end Awds.Lib
