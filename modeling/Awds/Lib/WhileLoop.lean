import Mathlib.Order.Basic

/-!
# `Awds.Lib.WhileLoop`: loops that need not end

`whileLoop cond body n s` runs `body` from `s` on as long as `cond` holds, with the fuel `n`. A
loop ends if some fuel is enough for it.

The three rules are the ones for total correctness: an invariant holds behind a loop that ends
(`whileLoop_spec`), a loop with a measure that decreases ends (`exists_whileLoop`), and a loop
whose invariant gives the condition does not end (`whileLoop_eq_none`).

`whileDo` is the same loop with a body that can fail, and `exists_whileDo` its rule.
-/

set_option autoImplicit false

namespace Awds.Lib

variable {σ : Type}

/-- `while (cond) body`, at most `n` tests of the condition. -/
def whileLoop (cond : σ → Bool) (body : σ → σ) : Nat → σ → Option σ
  | 0, _ => none
  | n + 1, s => if cond s then whileLoop cond body n (body s) else some s

variable {cond : σ → Bool} {body : σ → σ} {Inv : σ → Prop}

/-- One turn of the loop. -/
theorem whileLoop_of_true {s : σ} (n : Nat) (h : cond s = true) :
    whileLoop cond body (n + 1) s = whileLoop cond body n (body s) := if_pos h

/-- The end of the loop. -/
theorem whileLoop_of_false {s : σ} (n : Nat) (h : cond s = false) :
    whileLoop cond body (n + 1) s = some s := by
  simp [whileLoop, h]

/-- A loop that ends keeps the invariant, and its condition is false then. -/
theorem whileLoop_spec (hstep : ∀ s, Inv s → cond s = true → Inv (body s)) {n : Nat} {s t : σ}
    (hs : Inv s) (h : whileLoop cond body n s = some t) : Inv t ∧ cond t = false := by
  induction n generalizing s with
  | zero => cases h
  | succ n ih =>
    cases hc : cond s with
    | true =>
      rw [whileLoop_of_true n hc] at h
      exact ih (hstep s hs hc) h
    | false =>
      rw [whileLoop_of_false n hc, Option.some.injEq] at h
      exact h ▸ ⟨hs, hc⟩

/-- A loop with a measure that decreases ends. -/
theorem exists_whileLoop (measure : σ → Nat)
    (hstep : ∀ s, Inv s → cond s = true → Inv (body s) ∧ measure (body s) < measure s) {s : σ}
    (hs : Inv s) : ∃ n t, whileLoop cond body n s = some t := by
  induction hm : measure s using Nat.strongRecOn generalizing s with
  | _ m ih =>
    cases hc : cond s with
    | true =>
      obtain ⟨hbody, hlt⟩ := hstep s hs hc
      obtain ⟨n, t, h⟩ := ih _ (hm ▸ hlt) hbody rfl
      exact ⟨n + 1, t, by rw [whileLoop_of_true n hc, h]⟩
    | false => exact ⟨1, s, whileLoop_of_false 0 hc⟩

/-- A loop whose invariant gives the condition does not end. -/
theorem whileLoop_eq_none (hcond : ∀ s, Inv s → cond s = true)
    (hstep : ∀ s, Inv s → Inv (body s)) (n : Nat) {s : σ} (hs : Inv s) :
    whileLoop cond body n s = none := by
  induction n generalizing s with
  | zero => rfl
  | succ n ih =>
    rw [whileLoop_of_true n (hcond s hs)]
    exact ih (hstep s hs)

/-! ### Loops with a body that can fail -/

section

variable {ε : Type} {step : σ → Except ε σ} {stuck : ε}

/-- `while (cond) step`, at most `n` tests of the condition. -/
def whileDo (cond : σ → Bool) (step : σ → Except ε σ) (stuck : ε) : Nat → σ → Except ε σ
  | 0, _ => .error stuck
  | n + 1, s =>
    if cond s then do
      let s ← step s
      whileDo cond step stuck n s
    else .ok s

/-- The end of a loop whose body can fail. -/
theorem whileDo_of_false {s : σ} (n : Nat) (h : cond s = false) :
    whileDo cond step stuck (n + 1) s = .ok s := by
  simp [whileDo, h]

/-- One turn of such a loop, when the body has not failed. -/
theorem whileDo_of_true {s t : σ} (n : Nat) (h : cond s = true) (hs : step s = .ok t) :
    whileDo cond step stuck (n + 1) s = whileDo cond step stuck n t := by
  simp [whileDo, h, hs, bind, Except.bind]

/-- A loop with a measure below the fuel ends without a failure, with the invariant. -/
theorem exists_whileDo (Inv : σ → Prop) (cond : σ → Bool) (step : σ → Except ε σ) (stuck : ε)
    (measure : σ → Nat)
    (hstep : ∀ s, Inv s → cond s = true →
      ∃ t, step s = .ok t ∧ Inv t ∧ measure t < measure s) {n : Nat} {s : σ} (hs : Inv s)
    (hn : measure s < n) :
    ∃ t, whileDo cond step stuck n s = .ok t ∧ Inv t ∧ cond t = false := by
  induction n generalizing s with
  | zero => cases hn
  | succ n ih =>
    cases hc : cond s with
    | true =>
      obtain ⟨s', hs', hinv, hlt⟩ := hstep s hs hc
      rw [whileDo_of_true n hc hs']
      exact ih hinv (by omega)
    | false => exact ⟨s, whileDo_of_false n hc, hs, hc⟩

end

end Awds.Lib
