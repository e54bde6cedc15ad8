import Mathlib.Data.List.Nodup

/-!
# `Awds.Lib.DoublyLinked`: doubly linked lists in a heap

A heap is a map from addresses to nodes. `next` and `prev` read the two links of a node.
`Chain heap before first ps` says that the nodes at the addresses `ps` form a list: `first` is
the address of the first one, whose `prev` is `before`, and every other node is linked with
the one in front of it in both directions.

`Chain.congr` is the frame rule: a list is not changed by writes to other addresses, and
`Chain.congr_links` says the same of writes to other fields than the links. `Chain.snoc` links a
node behind the last one, `Chain.push` one in front of the first, and `Chain.remove` takes a node
out.
-/

set_option autoImplicit false

namespace Awds.Lib

variable {ν : Type} {next prev : ν → Option Nat}

/-- The nodes at the addresses `ps` form a list. -/
def Chain (next prev : ν → Option Nat) (heap : Nat → Option ν) :
    Option Nat → Option Nat → List Nat → Prop
  | _, first, [] => first = none
  | before, first, p :: ps => first = some p ∧
    ∃ n, heap p = some n ∧ prev n = before ∧ Chain next prev heap (some p) (next n) ps

namespace Chain

variable {heap heap' : Nat → Option ν} {before first : Option Nat} {ps : List Nat} {p : Nat}

/-- The address of the first node. -/
theorem first_eq (h : Chain next prev heap before first ps) : first = ps.head? := by
  cases ps with
  | nil => exact h
  | cons p ps => exact h.1

/-- The nodes of a list are in the heap. -/
theorem live (h : Chain next prev heap before first ps) (hp : p ∈ ps) : ∃ n, heap p = some n := by
  induction ps generalizing before first with
  | nil => cases hp
  | cons q ps ih =>
    obtain ⟨-, n, hn, -, hrest⟩ := h
    rcases List.mem_cons.mp hp with rfl | hp
    · exact ⟨n, hn⟩
    · exact ih hrest hp

/-- A list only depends on its own nodes. -/
theorem congr (h : Chain next prev heap before first ps) (hsame : ∀ q ∈ ps, heap' q = heap q) :
    Chain next prev heap' before first ps := by
  induction ps generalizing before first with
  | nil => exact h
  | cons q ps ih =>
    obtain ⟨hfirst, n, hn, hprev, hrest⟩ := h
    refine ⟨hfirst, n, ?_, hprev, ih hrest fun r hr => hsame r (List.mem_cons_of_mem q hr)⟩
    rw [hsame q List.mem_cons_self, hn]

/-- A node `new` is linked behind the last node `last`. -/
theorem snoc {last new : Nat} {l n : ν} (h : Chain next prev heap before first (ps ++ [last]))
    (hnodup : (ps ++ [last]).Nodup) (hother : ∀ q ∈ ps, heap' q = heap q)
    (hlast : heap' last = some l) (hlink : next l = some new)
    (hback : ∀ o, heap last = some o → prev l = prev o)
    (hnew : heap' new = some n) (hprev : prev n = some last) (hend : next n = none) :
    Chain next prev heap' before first (ps ++ [last] ++ [new]) := by
  induction ps generalizing before first with
  | nil =>
    obtain ⟨hfirst, o, ho, hbefore, -⟩ := h
    exact ⟨hfirst, l, hlast, (hback o ho).trans hbefore, hlink, n, hnew, hprev, hend⟩
  | cons q ps ih =>
    obtain ⟨hfirst, o, ho, hbefore, hrest⟩ := h
    refine ⟨hfirst, o, ?_, hbefore, ?_⟩
    · rw [hother q List.mem_cons_self, ho]
    · exact ih hrest (List.nodup_cons.mp hnodup).2 fun r hr => hother r (List.mem_cons_of_mem q hr)

/-- A list only depends on the links of its nodes. -/
theorem congr_links (h : Chain next prev heap before first ps)
    (hsame : ∀ q ∈ ps, ∀ o, heap q = some o →
      ∃ n, heap' q = some n ∧ prev n = prev o ∧ next n = next o) :
    Chain next prev heap' before first ps := by
  induction ps generalizing before first with
  | nil => exact h
  | cons q ps ih =>
    obtain ⟨hfirst, o, ho, hprev, hrest⟩ := h
    obtain ⟨n, hn, hprev', hnext'⟩ := hsame q List.mem_cons_self o ho
    refine ⟨hfirst, n, hn, hprev'.trans hprev, ?_⟩
    rw [hnext']
    exact ih hrest fun r hr => hsame r (List.mem_cons_of_mem q hr)

theorem getLast?_cons_or (a : Nat) (ps : List Nat) (before : Option Nat) :
    (a :: ps).getLast?.or before = ps.getLast?.or (some a) := by
  rw [List.getLast?_cons]
  cases ps.getLast? with
  | none => rfl
  | some b => rfl

/-- The links of a node in the middle. -/
theorem mid {qs : List Nat} (h : Chain next prev heap before first (ps ++ p :: qs)) :
    ∃ n, heap p = some n ∧ prev n = ps.getLast?.or before ∧ next n = qs.head? := by
  induction ps generalizing before first with
  | nil =>
    obtain ⟨-, n, hn, hprev, hrest⟩ := h
    exact ⟨n, hn, hprev, hrest.first_eq⟩
  | cons a ps ih =>
    obtain ⟨-, o, -, -, hrest⟩ := h
    rw [getLast?_cons_or]
    exact ih hrest

/-- A node `new` is linked in front of the first node. -/
theorem push {before' : Option Nat} {new : Nat} {l n : ν}
    (h : Chain next prev heap before first (p :: ps)) (hother : ∀ q ∈ ps, heap' q = heap q)
    (hfirst : heap' p = some l) (hback : prev l = some new)
    (hlink : ∀ o, heap p = some o → next l = next o)
    (hnew : heap' new = some n) (hprev : prev n = before') (hnext : next n = some p) :
    Chain next prev heap' before' (some new) (new :: p :: ps) := by
  obtain ⟨-, o, ho, -, hrest⟩ := h
  refine ⟨rfl, n, hnew, hprev, hnext, l, hfirst, hback, ?_⟩
  rw [hlink o ho]
  exact hrest.congr hother

/-- The node `p` is taken out: the nodes next to it are linked with each other. -/
theorem remove {qs : List Nat} (h : Chain next prev heap before first (ps ++ p :: qs))
    (hnodup : (ps ++ p :: qs).Nodup)
    (hpred : ∀ q o, ps.getLast? = some q → heap q = some o →
      ∃ n, heap' q = some n ∧ prev n = prev o ∧ next n = qs.head?)
    (hsucc : ∀ q o, qs.head? = some q → heap q = some o →
      ∃ n, heap' q = some n ∧ next n = next o ∧ prev n = ps.getLast?.or before)
    (hother : ∀ q ∈ ps ++ qs, ps.getLast? ≠ some q → qs.head? ≠ some q → heap' q = heap q) :
    Chain next prev heap' before (ps ++ qs).head? (ps ++ qs) := by
  -- The induction goes along the nodes in front of `p`; the last of them is relinked.
  induction ps generalizing before first with
  | nil =>
    -- The node behind `p` gets the node in front of the list as its `prev`.
    obtain ⟨-, o, -, -, hrest⟩ := h
    cases qs with
    | nil => exact rfl
    | cons q qs =>
      obtain ⟨-, o', ho', -, hrest⟩ := hrest
      obtain ⟨n, hn, hnext, hprev⟩ := hsucc q o' rfl ho'
      refine ⟨rfl, n, hn, hprev, ?_⟩
      rw [hnext]
      refine hrest.congr fun r hr => hother r (List.mem_cons_of_mem q hr) (by simp) ?_
      rintro heq
      cases heq
      exact (List.nodup_cons.mp (List.nodup_cons.mp hnodup).2).1 hr
  | cons a ps ih =>
    obtain ⟨hfirst, o, ho, hprev, hrest⟩ := h
    obtain ⟨hnot, hnodup'⟩ := List.nodup_cons.mp hnodup
    have hnot' : a ∉ ps ++ qs := by
      have hall : a ∉ ps ++ p :: qs := hnot
      simp only [List.mem_append, List.mem_cons, not_or] at hall ⊢
      exact ⟨hall.1, hall.2.2⟩
    have hlinked : Chain next prev heap' (some a) (ps ++ qs).head? (ps ++ qs) := by
      refine ih hrest hnodup' ?_ ?_ ?_
      · intro q o' hq
        refine hpred q o' ?_
        rw [List.getLast?_cons, hq]
        rfl
      · rw [← getLast?_cons_or a ps before]
        exact hsucc
      · intro q hq hlast hhead
        refine hother q (List.mem_cons_of_mem a hq) ?_ hhead
        rw [List.getLast?_cons]
        rintro heq
        cases hps : ps.getLast? with
        | none =>
          -- The only node in front of `p` is `a`.
          rw [hps] at heq
          cases heq
          exact hnot' hq
        | some b =>
          rw [hps] at heq hlast
          exact hlast heq
    cases ps with
    | nil =>
      -- `a` is linked with the node behind `p`.
      obtain ⟨n, hn, hprev', hnext⟩ := hpred a o rfl ho
      exact ⟨rfl, n, hn, hprev'.trans hprev, hnext ▸ hlinked⟩
    | cons b ps =>
      -- `a` is not next to `p`.
      have hsame : heap' a = heap a := by
        refine hother a List.mem_cons_self ?_ ?_
        · intro hlast
          rw [List.getLast?_cons_cons] at hlast
          exact hnot' (List.mem_append_left _ (List.mem_of_getLast? hlast))
        · intro hhead
          exact hnot' (List.mem_append_right _ (List.mem_of_head? hhead))
      refine ⟨rfl, o, hsame.trans ho, hprev, ?_⟩
      rw [hrest.1]
      exact hlinked

end Chain

end Awds.Lib
