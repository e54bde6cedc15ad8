import Mathlib

/-!
# `Awds.Lib.Line`: a waiting line that is entered at both ends

A line is served at its front. It is entered at the back, or at the front by those who are
in a hurry. `admitted` and `served` are the histories of who has entered and who has been
served, in that order.

`Line.Fair` is what holds of every line of this kind: nobody is lost or served twice, and
those who do not push in at the front keep their order.
-/

set_option autoImplicit false

namespace Awds.Lib

variable {α : Type}

/-- A waiting line with its history. -/
structure Line (α : Type) where
  waiting : List α := []
  admitted : List α := []
  served : List α := []

namespace Line

/-- Enters the line at the front. -/
def admitFront (l : Line α) (a : α) : Line α :=
  { l with waiting := a :: l.waiting, admitted := l.admitted ++ [a] }

/-- Enters the line at the back. -/
def admitBack (l : Line α) (a : α) : Line α :=
  { l with waiting := l.waiting ++ [a], admitted := l.admitted ++ [a] }

/-- Serves the front of the line. -/
def serve (l : Line α) : Line α :=
  { l with waiting := l.waiting.drop 1, served := l.served ++ l.waiting.take 1 }

/-- Everybody who was admitted has been served or waits, and the members for whom `calm`
holds come in the order of their admission. -/
structure Fair (calm : α → Bool) (l : Line α) : Prop where
  conserved : (l.served ++ l.waiting).Perm l.admitted
  ordered : (l.served ++ l.waiting).filter calm = l.admitted.filter calm

variable {calm : α → Bool} {l : Line α} {a : α}

/-- The empty line is fair. -/
theorem Fair.empty : Fair calm ({} : Line α) := ⟨.nil, rfl⟩

/-- Only those who are not calm may enter at the front. -/
theorem Fair.admitFront (h : Fair calm l) (ha : calm a = false) :
    Fair calm (l.admitFront a) where
  conserved := by
    show (l.served ++ a :: l.waiting).Perm (l.admitted ++ [a])
    refine List.perm_middle.trans ?_
    exact (h.conserved.cons a).trans (List.perm_append_singleton a l.admitted).symm
  ordered := by
    show (l.served ++ a :: l.waiting).filter calm = (l.admitted ++ [a]).filter calm
    have hold := h.ordered
    rw [List.filter_append] at hold
    rw [List.filter_append, List.filter_cons_of_neg (by simp [ha]), hold,
      List.filter_append, List.filter_cons_of_neg (by simp [ha]), List.filter_nil,
      List.append_nil]

/-- Who joins at the end waits behind all others. -/
theorem Fair.admitBack (h : Fair calm l) : Fair calm (l.admitBack a) where
  conserved := by
    show (l.served ++ (l.waiting ++ [a])).Perm (l.admitted ++ [a])
    rw [← List.append_assoc]
    exact h.conserved.append_right [a]
  ordered := by
    show (l.served ++ (l.waiting ++ [a])).filter calm = (l.admitted ++ [a]).filter calm
    rw [← List.append_assoc, List.filter_append, h.ordered, List.filter_append]

/-- Serving moves the front from the one list to the other. -/
theorem served_append_waiting_serve (l : Line α) :
    l.serve.served ++ l.serve.waiting = l.served ++ l.waiting := by
  show (l.served ++ l.waiting.take 1) ++ l.waiting.drop 1 = l.served ++ l.waiting
  rw [List.append_assoc, List.take_append_drop]

/-- Who is first is served. -/
theorem Fair.serve (h : Fair calm l) : Fair calm l.serve where
  conserved := by
    rw [served_append_waiting_serve]
    exact h.conserved
  ordered := by
    rw [served_append_waiting_serve]
    exact h.ordered

end Line

end Awds.Lib
