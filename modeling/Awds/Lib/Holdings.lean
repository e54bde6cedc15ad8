import Mathlib

/-!
# `Awds.Lib.Holdings`: counters of references and their holders

An object has a counter of its references. Some of the references are in places that keep them,
the list `stored`, in which an object stands once for each of its references. The others are in
the hands of code that runs, `held x` of them for the object `x`.

`Holdings count stored held` says that the counters are right. There is a law for each way in
which a reference can come and go: an object is created (`create`), a reference is taken
(`take`), dropped (`drop`), put into a place (`store`) or removed from it (`unstore`). The
counters determine what is held (`held_eq`): a reference that is neither stored nor dropped has
a holder for good.
-/

set_option autoImplicit false

namespace Awds.Lib

section

variable {κ : Type} [DecidableEq κ]

/-- The counter of an object is the number of its references. -/
def Holdings (count : κ → Nat) (stored : List κ) (held : κ → Nat) : Prop :=
  ∀ x, count x = stored.count x + held x

variable {count : κ → Nat} {stored stored' : List κ} {held held' : κ → Nat} {p : κ}

namespace Holdings

/-- What is held is what the counters show beyond the places. -/
theorem held_eq (h : Holdings count stored held) (h' : Holdings count stored held') :
    held = held' := by
  funext x
  have hx := h x
  have hx' := h' x
  omega

/-- An object that is held is alive. -/
theorem pos_of_held (h : Holdings count stored held) (hp : 0 < held p) : 0 < count p := by
  rw [h p]
  omega

/-- An object that stands in a place is alive. -/
theorem pos_of_stored (h : Holdings count stored held) (hp : p ∈ stored) : 0 < count p := by
  have hpos := List.count_pos_iff.mpr hp
  rw [h p]
  omega

/-- The places may be in any order. -/
theorem perm (h : Holdings count stored held) (hperm : stored.Perm stored') :
    Holdings count stored' held := by
  intro x
  rw [← hperm.count_eq]
  exact h x

/-- The creator of an object has the first reference. -/
theorem create (h : Holdings count stored held) (hfree : count p = 0) :
    Holdings (Function.update count p 1) stored (held + Pi.single p 1) := by
  intro x
  show _ = stored.count x + (held x + (Pi.single p 1 : κ → Nat) x)
  by_cases hx : x = p
  · subst hx
    have hnone := h x
    rw [Function.update_self, Pi.single_eq_same]
    omega
  · rw [Function.update_of_ne hx, Pi.single_eq_of_ne hx]
    exact h x

/-- A further reference. -/
theorem take (h : Holdings count stored held) :
    Holdings (Function.update count p (count p + 1)) stored (held + Pi.single p 1) := by
  intro x
  show _ = stored.count x + (held x + (Pi.single p 1 : κ → Nat) x)
  by_cases hx : x = p
  · subst hx
    rw [Function.update_self, Pi.single_eq_same, h x]
    omega
  · rw [Function.update_of_ne hx, Pi.single_eq_of_ne hx]
    exact h x

/-- A reference less. -/
theorem drop (h : Holdings count stored (held + Pi.single p 1)) :
    Holdings (Function.update count p (count p - 1)) stored held := by
  intro x
  have hx : count x = stored.count x + (held x + (Pi.single p 1 : κ → Nat) x) := h x
  by_cases hxp : x = p
  · subst hxp
    rw [Pi.single_eq_same] at hx
    rw [Function.update_self, hx]
    omega
  · rw [Pi.single_eq_of_ne hxp] at hx
    rw [Function.update_of_ne hxp]
    exact hx

/-- A reference is put into a place. -/
theorem store (h : Holdings count stored (held + Pi.single p 1)) :
    Holdings count (p :: stored) held := by
  intro x
  have hx : count x = stored.count x + (held x + (Pi.single p 1 : κ → Nat) x) := h x
  rw [List.count_cons]
  by_cases hxp : x = p
  · subst hxp
    rw [Pi.single_eq_same] at hx
    simp only [BEq.rfl, if_pos]
    omega
  · rw [Pi.single_eq_of_ne hxp] at hx
    rw [if_neg (by simpa using Ne.symm hxp)]
    omega

/-- References are removed from their places. -/
theorem unstoreAll {ps : List κ} (h : Holdings count (ps ++ stored) held) :
    Holdings count stored (held + fun x => ps.count x) := by
  intro x
  have hx := h x
  rw [List.count_append] at hx
  show _ = stored.count x + (held x + ps.count x)
  omega

/-- A reference is removed from its place. -/
theorem unstore (h : Holdings count (p :: stored) held) :
    Holdings count stored (held + Pi.single p 1) := by
  have hall := unstoreAll (show Holdings count ([p] ++ stored) held from h)
  have hone : (fun x => [p].count x) = (Pi.single p 1 : κ → Nat) := by
    funext x
    rw [List.count_singleton]
    by_cases hx : x = p
    · subst hx
      rw [Pi.single_eq_same]
      simp
    · rw [Pi.single_eq_of_ne hx, if_neg (by simpa using Ne.symm hx)]
  rwa [hone] at hall

end Holdings

end

end Awds.Lib
