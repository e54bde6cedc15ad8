import Mathlib

/-!
# `Awds.Lib.Substitution`: words that begin like their images

A substitution `f` replaces every letter of a word by a word that is not empty. A word echoes
if its image begins with it (`Echoes`).

Letters that are replaced by themselves make no difference in front (`echoes_append_iff`).
Behind them an echoing word has a first letter whose image begins with that letter, and when
this image is longer, the word is determined by its first letter and its length
(`Echoes.take_unique`): its image runs ahead of it.
-/

set_option autoImplicit false

namespace Awds.Lib

variable {α : Type} {f : α → List α} {a r w : List α} {x : α}

/-- The image of the word begins with the word. -/
def Echoes (f : α → List α) (w : List α) : Prop := (w.flatMap f).take w.length = w

instance [DecidableEq α] (f : α → List α) (w : List α) : Decidable (Echoes f w) :=
  inferInstanceAs (Decidable (_ = _))

/-- An image is not shorter than the word. -/
theorem length_le_flatMap (hf : ∀ x, f x ≠ []) (w : List α) :
    w.length ≤ (w.flatMap f).length := by
  induction w with
  | nil => exact Nat.le_refl 0
  | cons x w ih =>
    have hx := List.length_pos_iff.mpr (hf x)
    rw [List.flatMap_cons, List.length_append, List.length_cons]
    omega

/-- The image of a word of fixed letters. -/
theorem flatMap_eq_self (ha : ∀ x ∈ a, f x = [x]) : a.flatMap f = a := by
  induction a with
  | nil => rfl
  | cons x a ih =>
    rw [List.flatMap_cons, ha x List.mem_cons_self,
      ih fun y hy => ha y (List.mem_cons_of_mem x hy)]
    rfl

/-- Fixed letters in front make no difference. -/
theorem echoes_append_iff (ha : ∀ x ∈ a, f x = [x]) : Echoes f (a ++ w) ↔ Echoes f w := by
  unfold Echoes
  rw [List.flatMap_append, flatMap_eq_self ha, List.length_append, List.take_append,
    List.take_of_length_le (Nat.le_add_right _ _), Nat.add_sub_cancel_left,
    List.append_right_inj]

/-- A word echoes as far as a longer one does. -/
theorem Echoes.take (hf : ∀ x, f x ≠ []) (h : Echoes f w) (n : Nat) : Echoes f (w.take n) := by
  by_cases hn : w.length ≤ n
  · rwa [List.take_of_length_le hn]
  have hn : n ≤ w.length := Nat.le_of_not_le hn
  have hlen := length_le_flatMap hf (w.take n)
  rw [List.length_take_of_le hn] at hlen
  unfold Echoes at h ⊢
  rw [List.length_take_of_le hn]
  calc ((w.take n).flatMap f).take n
      = ((w.take n).flatMap f ++ (w.drop n).flatMap f).take n := by
        rw [List.take_append_of_le_length hlen]
    _ = (w.flatMap f).take n := by rw [← List.flatMap_append, List.take_append_drop]
    _ = ((w.flatMap f).take w.length).take n := by rw [List.take_take, Nat.min_eq_left hn]
    _ = w.take n := by rw [h]

/-- A word whose image begins with it begins like the image of its first letter. -/
theorem Echoes.head (hf : ∀ x, f x ≠ []) (h : Echoes f (x :: w)) : (f x).head? = some x := by
  have hlen := List.length_pos_iff.mpr (hf x)
  have hhead := congrArg List.head? h
  rw [List.head?_take, if_neg (by simp), List.flatMap_cons, List.head?_append_of_ne_nil _ (hf x)]
    at hhead
  exact hhead

/-- The next letter of an echoing word is in the image of the letters in front of it, when that
image is longer than they are. -/
theorem Echoes.take_succ (h : Echoes f w) {n : Nat} (hn : n + 1 ≤ w.length)
    (hgrow : n + 1 ≤ ((w.take n).flatMap f).length) :
    w.take (n + 1) = ((w.take n).flatMap f).take (n + 1) := by
  calc w.take (n + 1)
      = ((w.flatMap f).take w.length).take (n + 1) := by rw [h]
    _ = (w.flatMap f).take (n + 1) := by rw [List.take_take, Nat.min_eq_left hn]
    _ = ((w.take n).flatMap f ++ (w.drop n).flatMap f).take (n + 1) := by
        rw [← List.flatMap_append, List.take_append_drop]
    _ = ((w.take n).flatMap f).take (n + 1) := by rw [List.take_append_of_le_length hgrow]

/-- Two echoing words with the same first letter agree as far as both go. The induction is on
the length of the part that is known to agree. -/
theorem Echoes.take_unique (hf : ∀ x, f x ≠ []) (hgrow : 2 ≤ (f x).length)
    (hr : Echoes f (x :: r)) (hw : Echoes f (x :: w)) :
    ∀ n, n ≤ r.length → n ≤ w.length → r.take n = w.take n := by
  have hlonger : ∀ (v : List α) (n : Nat), n ≤ v.length →
      n + 2 ≤ (((x :: v).take (n + 1)).flatMap f).length := by
    intro v n hn
    have hrest := length_le_flatMap hf (v.take n)
    rw [List.length_take_of_le hn] at hrest
    rw [List.take_succ_cons, List.flatMap_cons, List.length_append]
    omega
  intro n
  induction n with
  | zero => exact fun _ _ => rfl
  | succ n ih =>
    intro hnr hnw
    have hagree := ih (by omega) (by omega)
    have hr' := hr.take_succ (n := n + 1) (by rw [List.length_cons]; omega)
      (hlonger r n (by omega))
    have hw' := hw.take_succ (n := n + 1) (by rw [List.length_cons]; omega)
      (hlonger w n (by omega))
    rw [List.take_succ_cons, List.take_succ_cons, hagree] at hr'
    rw [List.take_succ_cons, List.take_succ_cons] at hw'
    exact (List.cons.inj (hr'.trans hw'.symm)).2

end Awds.Lib
