import Mathlib.Data.List.Induction

/-!
# `Awds.Lib.Lines`: the lines of a stream

`splitLines sep s` gives the lines of a stream that are complete, each ended by `sep`, and the
line that is still open. It takes one symbol after the other, so a reader of the stream is
followed symbol by symbol: `splitLines_sep` is the step at the end of a line and
`splitLines_other` the step within a line.
-/

set_option autoImplicit false

namespace Awds.Lib

variable {α : Type} [DecidableEq α]

/-- One more symbol: it ends the open line or extends it. -/
def addSymbol (sep : α) (x : List (List α) × List α) (a : α) : List (List α) × List α :=
  if a = sep then (x.1 ++ [x.2], []) else (x.1, x.2 ++ [a])

/-- The complete lines of a stream, and the open one. -/
def splitLines (sep : α) (s : List α) : List (List α) × List α :=
  s.foldl (addSymbol sep) ([], [])

variable {sep a : α} {s : List α}

@[simp] theorem splitLines_nil : splitLines sep ([] : List α) = ([], []) := rfl

/-- The end of a line. -/
theorem splitLines_sep (s : List α) :
    splitLines sep (s ++ [sep]) = ((splitLines sep s).1 ++ [(splitLines sep s).2], []) := by
  simp [splitLines, addSymbol]

/-- A symbol within a line. -/
theorem splitLines_other (s : List α) (h : a ≠ sep) :
    splitLines sep (s ++ [a]) = ((splitLines sep s).1, (splitLines sep s).2 ++ [a]) := by
  simp [splitLines, addSymbol, h]

/-- A stream without a separator is an open line. -/
theorem splitLines_of_notMem (h : sep ∉ s) : splitLines sep s = ([], s) := by
  induction s using List.reverseRecOn with
  | nil => rfl
  | append_singleton s a ih =>
    rw [List.mem_append, List.mem_singleton, not_or] at h
    rw [splitLines_other s (Ne.symm h.2), ih h.1]

/-- The lines of the front of a stream are lines of the stream. -/
theorem splitLines_mono {pre : List α} (h : pre <+: s) :
    (splitLines sep pre).1 <+: (splitLines sep s).1 := by
  obtain ⟨rest, rfl⟩ := h
  induction rest using List.reverseRecOn with
  | nil => simp
  | append_singleton rest a ih =>
    rw [← List.append_assoc]
    by_cases ha : a = sep
    · subst ha
      rw [splitLines_sep]
      exact ih.trans (List.prefix_append _ _)
    · rwa [splitLines_other _ ha]

/-- The end of the last complete line. -/
theorem exists_lastLine (h : (splitLines sep s).1 ≠ []) :
    ∃ pre, pre ++ [sep] <+: s ∧ (splitLines sep (pre ++ [sep])).1 = (splitLines sep s).1 := by
  induction s using List.reverseRecOn with
  | nil => exact absurd rfl h
  | append_singleton s a ih =>
    by_cases ha : a = sep
    · subst ha
      exact ⟨s, List.prefix_rfl, rfl⟩
    · rw [splitLines_other s ha] at h ⊢
      obtain ⟨pre, hpre, heq⟩ := ih h
      exact ⟨pre, hpre.trans (List.prefix_append _ _), heq⟩

end Awds.Lib
