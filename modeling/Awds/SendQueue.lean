import Awds.Lib.Line
import Awds.Topology.State

/-!
# `Awds.SendQueue`: the queue of outgoing packets

`SendQueue` keeps pointers to packets until the device can take them. A packet of high
priority goes to the front of the queue and any other to the back. The transmit callback
`xmit_cb` sends the packet at the front; it is registered with `GEA.waitFor`, which calls it
once, when the device is ready or after a timeout.

A packet pointer is a number, and `refcount` is the heap: the reference counter of every
packet, 0 for one that is not allocated. A counter that is raised on a packet that is not
allocated is `Fault.dangling`. `pending` counts the registrations that have not been
answered by a call, and `sent` is the list of the packets that `doSend` got. What `doSend`
returns only matters for the debug output.

`World` adds the other owners of packets. `owned` is the number of references they hold. An
event is a call of the queue, of the callback, or a step of another owner.
-/

set_option autoImplicit false

namespace Awds

open Awds.Lib

/-- A pointer to a packet. -/
abbrev PacketPtr := Nat

/-- `QUEUE_LENGTH`. -/
abbrev queueLength : Nat := 10

/-- `SendQueue`, with the reference counters of the packets. -/
structure SendQueue where
  queue : List PacketPtr := []
  refcount : PacketPtr → Nat := fun _ => 0
  pending : Nat := 0
  sent : List PacketPtr := []

namespace SendQueue

/-- `BasePacket::ref`. -/
def ref (s : SendQueue) (p : PacketPtr) : Result SendQueue :=
  if s.refcount p = 0 then .error .dangling
  else .ok { s with refcount := Function.update s.refcount p (s.refcount p + 1) }

/-- `BasePacket::unref`. The packet is deleted with its last reference. -/
def unref (s : SendQueue) (p : PacketPtr) : Result SendQueue :=
  if s.refcount p = 0 then .error .assertion
  else .ok { s with refcount := Function.update s.refcount p (s.refcount p - 1) }

/-- `registerCallback`. -/
def registerCallback (s : SendQueue) : SendQueue := { s with pending := s.pending + 1 }

/-- `basic::doSend`. -/
def doSend (s : SendQueue) (p : PacketPtr) : SendQueue := { s with sent := s.sent ++ [p] }

/-- The end of `enqueuePacket`. -/
def registerFirst (s : SendQueue) : SendQueue :=
  -- if we inserted the first element, the send CB must be registered
  if s.queue.length = 1 then s.registerCallback else s

/-- `enqueuePacket`. The flag says whether the packet was accepted. -/
def enqueuePacket (s : SendQueue) (p : PacketPtr) (highPrio : Bool) :
    Result (SendQueue × Bool) :=
  if highPrio then do
    -- this might reverse the order if we cannot transmit for longer than a beacon interval
    let s ← s.ref p
    .ok (registerFirst { s with queue := p :: s.queue }, true)
  else if s.queue.length ≥ queueLength then .ok (s, false)
  else do
    let s ← s.ref p
    .ok (registerFirst { s with queue := s.queue ++ [p] }, true)

/-- `xmit_cb`, with the status of the handle: ready or not. -/
def xmitCb (s : SendQueue) (ready : Bool) : Result SendQueue :=
  match s.queue with
  | [] => .error .assertion
  | p :: rest => do
    let s ← if ready then (doSend { s with queue := rest } p).unref p else .ok s
    .ok (if s.queue.length > 0 then s.registerCallback else s)

/-! ### Runs -/

/-- The queue and the references that others hold. -/
structure World where
  q : SendQueue := {}
  owned : PacketPtr → Nat := fun _ => 0

/-- A call of the queue or of its callback, or another owner of a packet that creates it,
takes a further reference to it or drops one. -/
inductive Event where
  | enqueue (p : PacketPtr) (highPrio : Bool)
  | transmit (ready : Bool)
  | create (p : PacketPtr)
  | take (p : PacketPtr)
  | drop (p : PacketPtr)

/-- An event can only happen if its caller has a reference to the packet, the callback is
registered, or the memory of a new packet is free. -/
def Event.Possible (w : World) : Event → Prop
  | .enqueue p _ => 0 < w.owned p
  | .transmit _ => 0 < w.q.pending
  | .create p => w.q.refcount p = 0
  | .take p => 0 < w.owned p
  | .drop p => 0 < w.owned p

/-- The effect of an event. The flag is the result of `enqueuePacket`. -/
def World.exec (w : World) : Event → Result (World × Bool)
  | .enqueue p highPrio => do
    let (q, accepted) ← w.q.enqueuePacket p highPrio
    .ok ({ w with q := q }, accepted)
  | .transmit ready => do
    let q ← xmitCb { w.q with pending := w.q.pending - 1 } ready
    .ok ({ w with q := q }, true)
  | .create p =>
    .ok ({ q := { w.q with refcount := Function.update w.q.refcount p 1 },
           owned := Function.update w.owned p 1 }, true)
  | .take p => do
    let q ← w.q.ref p
    .ok ({ q := q, owned := Function.update w.owned p (w.owned p + 1) }, true)
  | .drop p => do
    let q ← w.q.unref p
    .ok ({ q := q, owned := Function.update w.owned p (w.owned p - 1) }, true)

/-- One acceptance of a packet. A packet can be accepted more than once, so an acceptance
has a number. -/
structure Ticket where
  nr : Nat
  packet : PacketPtr
  highPrio : Bool
  deriving DecidableEq, Repr

/-- The acceptances of a run as a waiting line. -/
def record (l : Line Ticket) : Event → Bool → Line Ticket
  | .enqueue p true, true => l.admitFront ⟨l.admitted.length, p, true⟩
  | .enqueue p false, true => l.admitBack ⟨l.admitted.length, p, false⟩
  | .transmit true, _ => l.serve
  | _, _ => l

/-- The runs from the constructor, with the line of their acceptances. -/
inductive Run : World → Line Ticket → Prop where
  | start : Run {} {}
  | step {w w' : World} {l : Line Ticket} {e : Event} {accepted : Bool} :
    Run w l → e.Possible w → w.exec e = .ok (w', accepted) → Run w' (record l e accepted)

end SendQueue

end Awds
