import Awds.Routing.Unicast
import Awds.SendQueue

/-!
# `Awds.TapFrames`: the frames of the tap interface in the send queue

`tap_recv` reads a frame, makes a packet of it and does not register itself again. Its
registration comes back with the callback of the packet, `tap_sendcb`, which `doSend` or the
last `unref` runs. Every device of the repository sends through its `SendQueue`.

`TapWorld` puts the callbacks on top of `SendQueue.World`, in which `tap_recv` is one of the
owners of packets. No other owner sets a callback. `cb` says which packets have one, and
`armed` counts the registrations of `tap_recv`. The rest is the history: a frame has a number,
`frameOf` is the frame in a packet, and `calls` and `destroyed` say how often the callback of a
frame was run and whether its packet is gone. No step reads the history.

What the routing does between two events is any change of its state (`elsewhere`).
-/

set_option autoImplicit false

namespace Awds

open Awds.Lib

/-- The tap interface, the routing and the send queue of a station. -/
structure TapWorld where
  world : SendQueue.World := {}
  routing : AwdsRouting
  cb : PacketPtr → Bool := fun _ => false
  armed : Nat := 1
  frameOf : PacketPtr → Option Nat := fun _ => none
  count : Nat := 0
  calls : Nat → Nat := fun _ => 0
  destroyed : Nat → Bool := fun _ => false

namespace TapWorld

/-- `TapInterface::tap_sendcb` for the packet `p`. What the write has returned is not used. -/
def tapSendcb (w : TapWorld) (p : PacketPtr) : TapWorld :=
  { w with
    armed := w.armed + 1
    calls := match w.frameOf p with
      | none => w.calls
      | some i => Function.update w.calls i (w.calls i + 1) }

/-- `setSendCallback`. -/
def setSendCallback (w : TapWorld) (p : PacketPtr) : Result TapWorld :=
  if w.cb p then .error .assertion else .ok { w with cb := Function.update w.cb p true }

/-- The end of `basic::doSend`, behind the write. -/
def runCallback (w : TapWorld) (p : PacketPtr) : TapWorld :=
  let w := if w.cb p then w.tapSendcb p else w
  { w with cb := Function.update w.cb p false }

/-- `delete`. -/
def deletePacket (w : TapWorld) (p : PacketPtr) : TapWorld :=
  { w with
    cb := Function.update w.cb p false
    frameOf := Function.update w.frameOf p none
    destroyed := match w.frameOf p with
      | none => w.destroyed
      | some i => Function.update w.destroyed i true }

/-- The end of `unref`, behind the decrement. -/
def released (w : TapWorld) (p : PacketPtr) : TapWorld :=
  if w.world.q.refcount p = 0 then
    (if w.cb p then w.tapSendcb p else w).deletePacket p
  else w

/-- A step of the queue or of another owner of packets. -/
def queueStep (w : TapWorld) (e : SendQueue.Event) : Result TapWorld := do
  let (world, _) ← w.world.exec e
  match e, w.world.q.queue with
  | .transmit true, p :: _ => .ok (({ w with world := world }.runCallback p).released p)
  | .drop p, _ => .ok ({ w with world := world }.released p)
  | .create p, _ => .ok { w with world := world, cb := Function.update w.cb p false }
  | _, _ => .ok { w with world := world }

/-- The packet `p` of the next frame, with its callback. -/
def newFrame (w : TapWorld) (p : PacketPtr) : Result TapWorld := do
  let w ← w.queueStep (.create p)
  let w := { w with frameOf := Function.update w.frameOf p (some w.count), count := w.count + 1 }
  w.setSendCallback p

/-- What becomes of the packet `p` in `sendBroadcast` or `sendUnicast`: it is sent or not, or
the handler of frames gets it, since the station itself is its destination. -/
def dispatch (host : Host) (clock : Clock) (w : TapWorld) (p : PacketPtr) :
    Option BasePacket ⊕ UnicastAction → Result TapWorld
  | .inl none => .ok w
  | .inr .drop => .ok w
  | .inr (.deliver q) => do
    let (r, _) ← TapInterface.recvUnicast host clock w.routing q
    .ok { w with routing := r }
  | .inl (some _) => w.queueStep (.enqueue p false)
  | .inr (.send _) => w.queueStep (.enqueue p false)

/-- `TapInterface::tap_recv`, which is not registered any more when it runs. `p` is the memory
of the new packet. -/
def tapRecv (host : Host) (clock : Clock) (w : TapWorld) (ready : Bool) (frame : List UInt8)
    (p : PacketPtr) : Result TapWorld :=
  if !ready then .ok { w with armed := w.armed + 1 }
  else do
    let w ← w.newFrame p
    let (r, outcome) ← TapInterface.tapRecv host clock w.routing frame
    let w ← { w with routing := r }.dispatch host clock p outcome
    w.queueStep (.drop p)

/-- A step of the queue or of another owner, a call of `tap_recv`, or a step of the routing. -/
inductive Event where
  | queue (e : SendQueue.Event)
  | tap (clock : Clock) (ready : Bool) (frame : List UInt8) (p : PacketPtr)
  | elsewhere (r : AwdsRouting)

/-- `tap_recv` is only called if it is registered. It reads 3000 bytes at most. -/
def Event.Possible (w : TapWorld) : Event → Prop
  | .queue e => e.Possible w.world
  | .tap _ _ frame p => 0 < w.armed ∧ frame.length ≤ 3000 ∧ w.world.q.refcount p = 0
  | .elsewhere _ => True

/-- The effect of an event. -/
def exec (host : Host) (w : TapWorld) : Event → Result TapWorld
  | .queue e => w.queueStep e
  | .tap clock ready frame p => { w with armed := w.armed - 1 }.tapRecv host clock ready frame p
  | .elsewhere r => .ok { w with routing := r }

/-- The runs from the constructor of `TapInterface`, which registers `tap_recv`. -/
inductive Run (host : Host) : TapWorld → Prop
  | start (r : AwdsRouting) : Run host { routing := r }
  | step (w w' : TapWorld) (e : Event) (run : Run host w) (possible : e.Possible w)
      (exec : w.exec host e = .ok w') : Run host w'

end TapWorld

end Awds
