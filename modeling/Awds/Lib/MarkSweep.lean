import Mathlib

/-!
# `Awds.Lib.MarkSweep`: tables that are refreshed by mark and sweep

A table holds data for the keys that are in use, each with a mark. A refresh clears the marks
(`clearMarks`), marks the keys that are still in use, with new entries for those that have none
(`mark`), and drops the entries without a mark (`sweep`).

`getElem?_refresh` is the law of the whole: the table has exactly the keys that were marked,
and a key that had an entry keeps its data. Without any mark nothing is left
(`sweep_clearMarks`).
-/

set_option autoImplicit false

namespace Awds.Lib

open Std (ExtTreeMap)

/-- Data with a mark. -/
structure Marked (δ : Type) where
  data : δ
  active : Bool := true
  deriving DecidableEq, Repr

section

variable {κ δ : Type} [Ord κ] [Std.TransOrd κ] [Std.LawfulEqOrd κ] [DecidableEq κ]

/-- A table of marked entries. -/
abbrev MarkTable (κ δ : Type) [Ord κ] := ExtTreeMap κ (Marked δ) compare

/-- Clears all marks. -/
def clearMarks (t : MarkTable κ δ) : MarkTable κ δ := t.map fun _ e => { e with active := false }

/-- Marks a key. A new entry gets the data `d`. -/
def mark (d : δ) (t : MarkTable κ δ) (k : κ) : MarkTable κ δ :=
  match t[k]? with
  | none => t.insert k { data := d }
  | some e => t.insert k { e with active := true }

/-- Drops the entries without a mark. -/
def sweep (t : MarkTable κ δ) : MarkTable κ δ := t.filter fun _ e => e.active

/-- A refresh with the keys `ks`. -/
def refresh (d : δ) (t : MarkTable κ δ) (ks : List κ) : MarkTable κ δ :=
  sweep (ks.foldl (mark d) (clearMarks t))

variable {t : MarkTable κ δ} {d : δ} {k : κ}

omit [DecidableEq κ] in
/-- Clearing takes the mark off every entry. -/
theorem getElem?_clearMarks (t : MarkTable κ δ) (k : κ) :
    (clearMarks t)[k]? = t[k]?.map fun e => { e with active := false } := by
  unfold clearMarks
  rw [ExtTreeMap.getElem?_map]

omit [DecidableEq κ] in
/-- Sweeping drops the entries without a mark. -/
theorem getElem?_sweep (t : MarkTable κ δ) (k : κ) :
    (sweep t)[k]? = t[k]?.filter Marked.active := by
  unfold sweep
  rw [ExtTreeMap.getElem?_filter']

/-- A marked key keeps its data, and other keys keep their entries. -/
theorem getElem?_mark (t : MarkTable κ δ) (k j : κ) : (mark d t k)[j]? =
    if j = k then some { data := (t[k]?.map Marked.data).getD d } else t[j]? := by
  have hinsert : ∀ e : Marked δ, (t.insert k e)[j]? = if j = k then some e else t[j]? := by
    intro e
    rw [ExtTreeMap.getElem?_insert]
    by_cases hj : j = k
    · rw [if_pos hj, if_pos (by rw [hj]; exact Std.ReflCmp.compare_self)]
    · rw [if_neg hj, if_neg fun hc => hj (Std.LawfulEqCmp.eq_of_compare hc).symm]
  unfold mark
  cases hk : t[k]? with
  | none => exact hinsert _
  | some e => exact hinsert _

/-- The entries behind the marks of a list of keys. The induction is on the list, for any
table. -/
theorem getElem?_foldl_mark (ks : List κ) (t : MarkTable κ δ) (j : κ) :
    (ks.foldl (mark d) t)[j]? =
      if j ∈ ks then some { data := (t[j]?.map Marked.data).getD d } else t[j]? := by
  induction ks generalizing t with
  | nil => rfl
  | cons k ks ih =>
    rw [List.foldl_cons, ih, getElem?_mark]
    by_cases hjk : j = k
    · subst hjk
      -- a key that is marked again has its data already
      rw [if_pos rfl, if_pos List.mem_cons_self]
      split
      · rfl
      · rfl
    · rw [if_neg hjk]
      by_cases hmem : j ∈ ks
      · rw [if_pos hmem, if_pos (List.mem_cons_of_mem k hmem)]
      · rw [if_neg hmem, if_neg fun hc => (List.mem_cons.mp hc).elim hjk hmem]

/-- A refresh leaves the keys that it is given, each with the data it had. -/
theorem getElem?_refresh (t : MarkTable κ δ) (ks : List κ) (j : κ) : (refresh d t ks)[j]? =
    if j ∈ ks then some { data := (t[j]?.map Marked.data).getD d } else none := by
  unfold refresh
  rw [getElem?_sweep, getElem?_foldl_mark, getElem?_clearMarks]
  by_cases hmem : j ∈ ks
  · rw [if_pos hmem, if_pos hmem, Option.map_map]
    rfl
  · rw [if_neg hmem, if_neg hmem]
    cases t[j]? with
    | none => rfl
    | some e => rfl

/-- The keys behind a refresh. -/
theorem mem_refresh (d : δ) (t : MarkTable κ δ) (ks : List κ) (j : κ) :
    j ∈ refresh d t ks ↔ j ∈ ks := by
  rw [ExtTreeMap.mem_iff_isSome_getElem?, getElem?_refresh]
  split
  · rename_i hmem
    exact iff_of_true rfl hmem
  · rename_i hmem
    exact iff_of_false (by simp) hmem

omit [DecidableEq κ] in
/-- Without a mark nothing is left. -/
theorem sweep_clearMarks (t : MarkTable κ δ) : sweep (clearMarks t) = ∅ := by
  refine ExtTreeMap.ext_getElem? fun k => ?_
  rw [getElem?_sweep, getElem?_clearMarks, ExtTreeMap.getElem?_empty]
  cases t[k]? with
  | none => rfl
  | some e => rfl

end

end Awds.Lib
