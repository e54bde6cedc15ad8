import Awds.CancelTimer
import Awds.Proofs.Topology.Links

/-!
# `Awds.Proofs.CancelTimer`: what `cleanUp` leaves of the timers

`cleanUp` is to unlink and delete the timers that are not active. Its loop moves the head instead
of a pointer to the link of the last timer that is kept: each turn takes the first timer off the
list, and behind a deleted one the next timer as well, or a null pointer if there is none.

`TimerList` is the list of the timers, and `CleansUp` what `cleanUp` is to do with it.
`cleanUp_head` and `cleanUp_kept` say what a call leaves: no list, and the timers that the list did
not contain. So the call does what it should for the empty list only, and there is no list in any
run (`TimerRun`), in which an active timer could be found.
-/

set_option autoImplicit false

namespace Awds.Proofs

open Awds.CancelTimerManager

/-- The timers from `first` on, in their order. -/
def TimerList (timers : TimerPtr → Option CancelTimer) : Option TimerPtr → List TimerPtr → Prop
  | first, [] => first = none
  | first, p :: ps => first = some p ∧ ∃ t, timers p = some t ∧ TimerList timers t.next ps

/-- Whether a timer is there and active. -/
def isActive (m : CancelTimerManager) (p : TimerPtr) : Bool :=
  (m.timers p).any fun t => decide (t.state = .active)

/-- `cleanUp` ends. It deletes the timers of the list that are not active, and no others, and it
leaves the active ones in their order. -/
def CleansUp (m : CancelTimerManager) (ps : List TimerPtr) : Prop :=
  ∃ n m', m.cleanUp n = .ok m' ∧ TimerList m'.timers m'.head (ps.filter (isActive m)) ∧
    ∀ p, m'.timers p = none ↔ m.timers p = none ∨ p ∈ ps ∧ isActive m p = false

/-- A timer links to the other one. -/
def LinksTo (m : CancelTimerManager) (p q : TimerPtr) : Prop :=
  ∃ t, m.timers p = some t ∧ t.next = some q

/-- Every active timer can be reached from the head. -/
def AllReachable (m : CancelTimerManager) : Prop :=
  ∀ p, isActive m p = true → ∃ q, m.head = some q ∧ Relation.ReflTransGen (LinksTo m) q p

/-- The runs of a program from one state to another one. A timer expires in two steps, with a run
of its callback between them. New timers can be forbidden. -/
inductive TimerRun (starts : Prop) : CancelTimerManager → CancelTimerManager → Prop where
  | nothing (m) : TimerRun starts m m
  | start (p n) {m m1 m2} : TimerRun starts m m1 → starts → m1.timers p = none →
      m1.startTimer n p = .ok m2 → TimerRun starts m m2
  | cancel (p) {m m1 m2} : TimerRun starts m m1 → m1.cancel p = .ok m2 → TimerRun starts m m2
  | expire (p) {m m1 m2 m3} : TimerRun starts m m1 → isActive m1 p = true →
      TimerRun starts m1 m2 → m2.fire p = .ok m3 → TimerRun starts m m3

section

variable {m m' : CancelTimerManager} {p q : TimerPtr} {ps : List TimerPtr} {n : Nat}

/-! ### One turn -/

/-- A pointer can be followed if there is a timer at it. -/
theorem deref_eq_ok {t : CancelTimer} : m.deref (some p) = .ok t ↔ m.timers p = some t := by
  unfold deref
  cases h : m.timers p <;> simp [h]

/-- A list does not depend on the other timers. -/
theorem TimerList.update {timers : TimerPtr → Option CancelTimer} {first : Option TimerPtr}
    (h : TimerList timers first ps) (hp : p ∉ ps) (t : Option CancelTimer) :
    TimerList (Function.update timers p t) first ps := by
  induction ps generalizing first with
  | nil => exact h
  | cons q ps ih =>
    obtain ⟨hfirst, u, hu, hrest⟩ := h
    rw [List.mem_cons, not_or] at hp
    exact ⟨hfirst, u, by rw [Function.update_of_ne (Ne.symm hp.1), hu], ih hrest hp.2⟩

/-- A turn takes an active timer off the list. It deletes one that is not active and takes the
next one off, too. -/
theorem cleanUpTurn_cases (hlist : TimerList m.timers m.head (p :: ps)) (hnodup : (p :: ps).Nodup) :
    (isActive m p = true ∧ ∃ first, m.cleanUpTurn p = .ok { m with head := first } ∧
      TimerList m.timers first ps) ∨
    isActive m p = false ∧ (ps = [] ∧ m.cleanUpTurn p = .error .nullPointer ∨
      ∃ q rest first, ps = q :: rest ∧
        m.cleanUpTurn p = .ok ⟨Function.update m.timers p none, first⟩ ∧
        TimerList (Function.update m.timers p none) first rest) := by
  obtain ⟨hhead, t, ht, hrest⟩ := hlist
  rw [List.nodup_cons] at hnodup
  unfold cleanUpTurn
  rw [deref_eq_ok.mpr ht, except_bind_ok]
  -- An active timer stays. The code only moves the head to the next one.
  by_cases hstate : t.state = .active
  · refine .inl ⟨by simp [isActive, ht, hstate], t.next, ?_, hrest⟩
    rw [if_neg (not_not.mpr hstate)]
    dsimp only
    rw [hhead, deref_eq_ok.mpr ht]
    rfl
  · refine .inr ⟨by simp [isActive, ht, hstate], ?_⟩
    rw [if_pos hstate]
    -- The memory of a timer that is not active is freed, and the head moves past the one behind it.
    have hupdated := hrest.update hnodup.1 none
    cases ps with
    | nil =>
      have hnext : t.next = none := hrest
      rw [hnext]
      exact .inl ⟨rfl, rfl⟩
    | cons q rest =>
      obtain ⟨hnext, u, hu, hbehind⟩ := hupdated
      refine .inr ⟨q, rest, u.next, rfl, ?_, hbehind⟩
      dsimp only
      rw [hnext, deref_eq_ok.mpr hu]
      rfl

/-! ### A call -/

/-- A turn of `cleanUp` is about the timer at the head. -/
theorem cleanUp_succ (hhead : m.head = some p) : m.cleanUp (n + 1) = (do
    let m ← m.cleanUpTurn p
    m.cleanUp n) := by
  rw [cleanUp, hhead]

/-- Behind a call there is no list. -/
theorem cleanUp_head (h : m.cleanUp n = .ok m') : m'.head = none := by
  induction n generalizing m with
  | zero => cases h
  | succ n ih =>
    cases hhead : m.head with
    | none =>
      rw [cleanUp, hhead] at h
      cases h
      exact hhead
    | some current =>
      rw [cleanUp_succ hhead] at h
      obtain ⟨m1, -, hrest⟩ := bind_eq_ok.mp h
      exact ih hrest

/-- A timer that is not in the list is kept. -/
theorem cleanUp_kept (hlist : TimerList m.timers m.head ps) (hnodup : ps.Nodup) (hq : q ∉ ps)
    (h : m.cleanUp n = .ok m') : m'.timers q = m.timers q := by
  induction n generalizing m ps with
  | zero => cases h
  | succ n ih =>
    cases ps with
    | nil =>
      have hhead : m.head = none := hlist
      rw [cleanUp, hhead] at h
      cases h
      rfl
    | cons p ps =>
      have hne : q ≠ p := List.ne_of_not_mem_cons hq
      rw [cleanUp_succ hlist.1] at h
      -- A turn drops one timer of the list or two, and it frees one of them at most.
      rcases cleanUpTurn_cases hlist hnodup with ⟨-, first, hturn, hrest⟩ |
        ⟨-, ⟨-, hturn⟩ | ⟨p', rest, first, rfl, hturn, hrest⟩⟩
      · rw [hturn] at h
        exact ih (m := { m with head := first }) hrest hnodup.of_cons
          (List.not_mem_of_not_mem_cons hq) h
      · rw [hturn] at h
        cases h
      · rw [hturn] at h
        have hkept := ih (m := ⟨Function.update m.timers p none, first⟩) hrest
          hnodup.of_cons.of_cons
          (List.not_mem_of_not_mem_cons (List.not_mem_of_not_mem_cons hq)) h
        exact hkept.trans (Function.update_of_ne hne _ _)

/-- `cleanUp` does what it should for the empty list only. -/
theorem cleansUp_iff (hlist : TimerList m.timers m.head ps) (hnodup : ps.Nodup) :
    CleansUp m ps ↔ ps = [] := by
  constructor
  · rintro ⟨n, m', hrun, hleft, hdeleted⟩
    -- no timer is linked behind the call, so none was active
    rw [cleanUp_head hrun] at hleft
    have hnone : ∀ p ∈ ps, isActive m p = false := by
      have hnil : ps.filter (isActive m) = [] := by
        cases hfilter : ps.filter (isActive m) with
        | nil => rfl
        | cons p rest =>
          rw [hfilter] at hleft
          cases hleft.1
      intro p hp
      simpa using List.filter_eq_nil_iff.mp hnil p hp
    cases ps with
    | nil => rfl
    | cons p ps =>
      cases n with
      | zero => cases hrun
      | succ n =>
        rw [cleanUp_succ hlist.1] at hrun
        rcases cleanUpTurn_cases hlist hnodup with ⟨hactive, -⟩ |
          ⟨-, ⟨-, hturn⟩ | ⟨q, rest, first, rfl, hturn, hrest⟩⟩
        · rw [hnone p List.mem_cons_self] at hactive
          cases hactive
        · rw [hturn] at hrun
          cases hrun
        · -- the timer behind the deleted one is left in the memory
          rw [hturn] at hrun
          have hnotin : q ∉ rest := (List.nodup_cons.mp hnodup.of_cons).1
          have hne : q ≠ p := fun heq => (List.nodup_cons.mp hnodup).1 (heq ▸ List.mem_cons_self)
          have hkept := cleanUp_kept (m := ⟨Function.update m.timers p none, first⟩) hrest
            hnodup.of_cons.of_cons hnotin hrun
          have hq : q ∈ p :: q :: rest := List.mem_cons_of_mem _ List.mem_cons_self
          obtain ⟨-, t, -, -, u, hu, -⟩ := hlist
          have hgone : Function.update m.timers p none q = none :=
            hkept.symm.trans ((hdeleted q).mpr (.inr ⟨hq, hnone q hq⟩))
          rw [Function.update_of_ne hne, hu] at hgone
          cases hgone
  · rintro rfl
    have hhead : m.head = none := hlist
    refine ⟨1, m, by rw [cleanUp, hhead], hlist, fun p => ?_⟩
    simp

/-! ### Runs -/

/-- A new timer is taken off the list at once. -/
theorem startTimer_run (hhead : m.head = none) (p : TimerPtr) : m.startTimer 2 p =
    .ok ⟨Function.update m.timers p (some ⟨none, .active⟩), none⟩ := by
  unfold startTimer
  rw [hhead, cleanUp_succ rfl]
  unfold cleanUpTurn
  rw [deref_eq_ok.mpr (Function.update_self _ _ _), except_bind_ok, if_neg (by simp)]
  dsimp only
  rw [deref_eq_ok.mpr (Function.update_self _ _ _)]
  rfl

/-- A timer that is set keeps its place in the list. -/
theorem setState_eq {state : CancelTimer.State} (h : m.setState p state = .ok m') :
    m'.head = m.head ∧ ∃ t, m.timers p = some t := by
  obtain ⟨t, ht, hend⟩ := bind_eq_ok.mp h
  cases hend
  exact ⟨rfl, t, deref_eq_ok.mp ht⟩

/-- There is no list in any run. -/
theorem TimerRun.head {starts : Prop} (h : TimerRun starts m m') (hhead : m.head = none) :
    m'.head = none := by
  induction h with
  | nothing => exact hhead
  | start p n _ _ _ hstart _ => exact cleanUp_head hstart
  | cancel p _ hcancel ih => exact (setState_eq hcancel).1.trans (ih hhead)
  | expire p _ _ _ hfire ih ihcallback =>
    exact (setState_eq hfire).1.trans (ihcallback (ih hhead))

/-- Without new timers there are none. -/
theorem TimerRun.no_timers (h : TimerRun False m m') (hnone : ∀ p, m.timers p = none) :
    ∀ p, m'.timers p = none := by
  induction h with
  | nothing => exact hnone
  | start p n _ hstarts => exact hstarts.elim
  | cancel p _ hcancel ih =>
    obtain ⟨-, t, ht⟩ := setState_eq hcancel
    rw [ih hnone p] at ht
    cases ht
  | expire p _ _ _ hfire ih ihcallback =>
    obtain ⟨-, t, ht⟩ := setState_eq hfire
    rw [ihcallback (ih hnone) p] at ht
    cases ht

/-- Without a list no active timer can be reached. -/
theorem allReachable_iff (hhead : m.head = none) :
    AllReachable m ↔ ∀ p, isActive m p = false := by
  constructor
  · intro h p
    rw [← Bool.not_eq_true]
    intro hactive
    obtain ⟨q, hq, -⟩ := h p hactive
    rw [hhead] at hq
    cases hq
  · intro h p hactive
    rw [h p] at hactive
    cases hactive

end

/-- For every list of timers, `cleanUp` does what it should exactly if the list is empty. In every
run, `startTimer` returns, and all active timers can be reached exactly if there is none, as in
every run without `startTimer`. -/
theorem timers_reachable_iff (m : CancelTimerManager) :
    (∀ ps, TimerList m.timers m.head ps → ps.Nodup → (CleansUp m ps ↔ ps = [])) ∧
    (TimerRun True {} m → (∀ p, ∃ m', m.startTimer 2 p = .ok m') ∧
      (AllReachable m ↔ ∀ p, isActive m p = false)) ∧
    (TimerRun False {} m → AllReachable m) := by
  refine ⟨fun ps => cleansUp_iff, fun hrun => ?_, fun hrun => ?_⟩
  · have hhead := hrun.head rfl
    exact ⟨fun p => ⟨_, startTimer_run hhead p⟩, allReachable_iff hhead⟩
  · refine (allReachable_iff (hrun.head rfl)).mpr fun p => ?_
    unfold isActive
    rw [hrun.no_timers (fun _ => rfl) p]
    rfl

/-- A manager with one timer, which was canceled. -/
def oneCanceled : CancelTimerManager where
  timers := Function.update (fun _ => none) 1 (some ⟨none, .canceled⟩)
  head := some 1

/-- For a list of one canceled timer `cleanUp` reads through a null pointer, and behind the first
`startTimer` of a program the new timer cannot be reached. -/
theorem cleanUp_loses_timers :
    (∀ n, oneCanceled.cleanUp (n + 1) = .error .nullPointer) ∧
    (¬∀ m ps, TimerList m.timers m.head ps → ps.Nodup → CleansUp m ps) ∧
    ¬∀ m, TimerRun True {} m → AllReachable m := by
  refine ⟨fun n => rfl, fun hclaim => ?_, fun hclaim => ?_⟩
  · have hlist : TimerList oneCanceled.timers oneCanceled.head [1] := ⟨rfl, _, rfl, rfl⟩
    have hnil := (cleansUp_iff hlist (by simp)).mp (hclaim _ _ hlist (by simp))
    cases hnil
  · have hstart := startTimer_run (m := {}) rfl 1
    have hrun : TimerRun True {} _ := .start 1 2 (.nothing _) trivial rfl hstart
    have hno := (allReachable_iff (hrun.head rfl)).mp (hclaim _ hrun) 1
    cases hno

end Awds.Proofs
