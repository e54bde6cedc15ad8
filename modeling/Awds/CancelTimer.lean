import Mathlib.Logic.Function.Basic

/-!
# `Awds.CancelTimer`: timers that can be canceled

A `CancelTimerManager` links its timers, the latest one first. `startTimer` puts a new one in front
of the others and calls `cleanUp`, which is to delete those that were canceled or have fired.

`timers` is the memory of the timers, and a timer is there until it is deleted. A read through a
null pointer or of a deleted timer is an error. What a timer calls is not part of the model, and
neither is its time. In the loop of `cleanUp` the pointer `prev` is never moved, so `*prev` is
`head` in every turn.
-/

set_option autoImplicit false

namespace Awds

/-- The address of a timer. -/
abbrev TimerPtr := Nat

/-- `CancelTimer::State`. -/
inductive CancelTimer.State where
  | active
  | canceled
  | fired
  deriving DecidableEq, Repr

/-- `CancelTimer`. -/
structure CancelTimer where
  next : Option TimerPtr
  state : CancelTimer.State
  deriving DecidableEq, Repr

/-- What ends a call. -/
inductive TimerFault where
  | nullPointer
  | dangling
  | diverges
  deriving DecidableEq, Repr

/-- `CancelTimerManager`, with the memory of the timers. -/
structure CancelTimerManager where
  timers : TimerPtr → Option CancelTimer := fun _ => none
  head : Option TimerPtr := none

namespace CancelTimerManager

/-- The timer at an address. -/
def deref (m : CancelTimerManager) : Option TimerPtr → Except TimerFault CancelTimer
  | none => .error .nullPointer
  | some p => match m.timers p with
    | none => .error .dangling
    | some t => .ok t

/-- The state of a timer is set. -/
def setState (m : CancelTimerManager) (p : TimerPtr) (state : CancelTimer.State) :
    Except TimerFault CancelTimerManager := do
  let t ← m.deref (some p)
  .ok { m with timers := Function.update m.timers p (some { t with state := state }) }

/-- One turn of the loop of `cleanUp`. -/
def cleanUpTurn (m : CancelTimerManager) (current : TimerPtr) :
    Except TimerFault CancelTimerManager := do
  let t ← m.deref (some current)
  -- unlink and remove
  let m := if t.state ≠ .active then
    { timers := Function.update m.timers current none, head := t.next } else m
  -- `*prev = (*prev)->next`, for a removed timer too
  let first ← m.deref m.head
  .ok { m with head := first.next }

/-- `cleanUp`, at most `n` tests of the condition of its loop. -/
def cleanUp : Nat → CancelTimerManager → Except TimerFault CancelTimerManager
  | 0, _ => .error .diverges
  | n + 1, m => match m.head with
    | none => .ok m
    | some current => do
      let m ← m.cleanUpTurn current
      cleanUp n m

/-- `startTimer`, with the new timer at `p` and at most `n` tests in the loop of `cleanUp`. -/
def startTimer (n : Nat) (m : CancelTimerManager) (p : TimerPtr) :
    Except TimerFault CancelTimerManager :=
  cleanUp n { timers := Function.update m.timers p (some ⟨m.head, .active⟩), head := some p }

/-- `cancel`. -/
def cancel (m : CancelTimerManager) (p : TimerPtr) : Except TimerFault CancelTimerManager :=
  m.setState p .canceled

/-- The end of `timeout_func` for an active timer, behind its callback. -/
def fire (m : CancelTimerManager) (p : TimerPtr) : Except TimerFault CancelTimerManager :=
  m.setState p .fired

end CancelTimerManager

end Awds
