import Awds.Proofs.Routing.Flood
import Awds.Proofs.SendQueue
import Awds.Proofs.Topology.Links
import Awds.TapFrames

/-!
# `Awds.Proofs.TapFrames`: the tap interface reads one frame at a time

The registration of `tap_recv` is a token. It is with the tap interface (`Idle`) or with the
one frame that is on its way, whose packet has the callback and is in the send queue
(`Waiting`). Whatever becomes of a packet in the routing, `tap_recv` drops its own reference at
the end. If the packet has been queued, the queue has the only reference left, and `doSend` runs
the callback before the queue drops it. Otherwise the drop of `tap_recv` is the last one.

`Rearms` is the invariant of the runs, with the invariant of the queue in it: a run of the
interface is one of the queue.
-/

set_option autoImplicit false

namespace Awds.Proofs

open Awds.Lib Awds.SendQueue

/-! ### Other packets -/

section
variable {w w' : World} {l : Line Ticket} {e : SendQueue.Event} {accepted : Bool}
  {p x : PacketPtr}

/-- The event is a step of the owner of the packet `x`, or `doSend` gets it. -/
def Concerns (w : World) (x : PacketPtr) : SendQueue.Event → Prop
  | .enqueue p _ => p = x
  | .transmit ready => ready = true ∧ w.q.queue.head? = some x
  | .create p => p = x
  | .take p => p = x
  | .drop p => p = x

/-- What a transmission does to the queue. -/
theorem queueExec_transmit (h : Orderly w l) {rest : List PacketPtr} (hq : w.q.queue = p :: rest)
    (hrun : w.exec (.transmit true) = .ok (w', accepted)) :
    w'.owned = w.owned ∧ w'.q.queue = rest := by
  have hp : 0 < w.q.refcount p := by
    rw [h.counted, hq, List.count_cons_self]
    omega
  rw [World.exec, xmitCb_run (s := { w.q with pending := w.q.pending - 1 }) hq hp true] at hrun
  cases hrun
  exact ⟨rfl, rfl⟩

/-- The device is not ready: `doSend` leaves the packet at the front of the queue and the counters
as they are. -/
theorem queueExec_timeout (h : Orderly w l) (he : (SendQueue.Event.transmit false).Possible w)
    (hrun : w.exec (.transmit false) = .ok (w', accepted)) :
    w'.owned = w.owned ∧ w'.q.queue = w.q.queue := by
  obtain ⟨q, hq, -⟩ := h.transmit he false
  cases hqueue : w.q.queue with
  | nil =>
    have hpending : 0 < w.q.pending := he
    rw [h.registered, hqueue] at hpending
    exact absurd hpending (by decide)
  | cons p rest =>
    have hp : 0 < w.q.refcount p := by
      rw [h.counted, hqueue, List.count_cons_self]
      omega
    rw [World.exec,
      xmitCb_run (s := { w.q with pending := w.q.pending - 1 }) hqueue hp false] at hrun
    cases hrun
    exact ⟨rfl, hqueue⟩

/-- A new packet has one owner, and is not in the queue. -/
theorem queueExec_create (hrun : w.exec (.create p) = .ok (w', accepted)) :
    w'.owned p = 1 ∧ w'.q.queue = w.q.queue := by
  cases hrun
  exact ⟨Function.update_self .., rfl⟩

/-- An owner that drops a packet gives up one reference. -/
theorem queueExec_drop (h : Orderly w l) (he : 0 < w.owned p)
    (hrun : w.exec (.drop p) = .ok (w', accepted)) :
    w'.owned p = w.owned p - 1 ∧ w'.q.queue = w.q.queue := by
  rw [World.exec, unref_run (h.refcount_pos he)] at hrun
  cases hrun
  exact ⟨Function.update_self .., rfl⟩

/-- A packet that an event is not about stays where it is. -/
theorem queueExec_keeps (h : Orderly w l) (he : e.Possible w)
    (hrun : w.exec e = .ok (w', accepted)) (hx : ¬Concerns w x e) :
    w'.owned x = w.owned x ∧ w'.q.queue.count x = w.q.queue.count x := by
  cases e with
  -- The packet that enters is another one.
  | enqueue p highPrio =>
    obtain ⟨⟨q, flag⟩, hq, hrun⟩ := bind_eq_ok.mp hrun
    cases hrun
    refine ⟨rfl, ?_⟩
    rcases enqueuePacket_cases (h.refcount_pos he) hq with ⟨-, hsame⟩ | ⟨-, front, back, hs, hins⟩
    · show q.queue.count x = _
      rw [hsame]
    · show q.queue.count x = _
      have hne : ¬p = x := hx
      rw [hins, inserted_count hs, if_neg hne]
      rfl
  -- The packet that is handed over is another one.
  | transmit ready =>
    cases ready with
    | false =>
      obtain ⟨howned, hqueue⟩ := queueExec_timeout h he hrun
      rw [howned, hqueue]
      exact ⟨rfl, rfl⟩
    | true =>
      cases hq : w.q.queue with
      | nil =>
        have hpending : 0 < w.q.pending := he
        rw [h.registered, hq] at hpending
        exact absurd hpending (by decide)
      | cons p rest =>
        obtain ⟨howned, hqueue⟩ := queueExec_transmit h hq hrun
        have hne : p ≠ x := fun hpx => hx ⟨rfl, by rw [hq, hpx]; rfl⟩
        rw [howned, hqueue, List.count_cons_of_ne hne]
        exact ⟨rfl, rfl⟩
  -- What a new packet, a taken or a dropped reference changes is another packet's.
  | create p =>
    cases hrun
    exact ⟨Function.update_of_ne (Ne.symm hx) _ _, rfl⟩
  | take p =>
    rw [World.exec, ref_run (h.refcount_pos he)] at hrun
    cases hrun
    exact ⟨Function.update_of_ne (Ne.symm hx) _ _, rfl⟩
  | drop p =>
    rw [World.exec, unref_run (h.refcount_pos he)] at hrun
    cases hrun
    exact ⟨Function.update_of_ne (Ne.symm hx) _ _, rfl⟩

end

/-! ### The token -/

/-- `tap_recv` is registered, and every frame is done with. -/
structure Idle (w : TapWorld) : Prop where
  armed : w.armed = 1
  cb : w.cb = fun _ => false
  frameOf : w.frameOf = fun _ => none
  done : ∀ i, i < w.count → w.calls i = 1 ∧ w.destroyed i = true

/-- The frame `i` is on its way in the packet `p`, which has the callback. Every frame in front
of it is done with. -/
structure OnItsWay (w : TapWorld) (p : PacketPtr) (i : Nat) : Prop where
  armed : w.armed = 0
  count : w.count = i + 1
  cb : w.cb = Function.update (fun _ => false) p true
  frameOf : w.frameOf = Function.update (fun _ => none) p (some i)
  called : w.calls i = 0
  alive : w.destroyed i = false
  done : ∀ j, j < i → w.calls j = 1 ∧ w.destroyed j = true

/-- The packet is in the queue and nowhere else. -/
structure Waiting (w : TapWorld) (p : PacketPtr) (i : Nat) : Prop extends OnItsWay w p i where
  owned : w.world.owned p = 0
  queued : w.world.q.queue.count p = 1

/-- The token is with the tap interface or with one frame, and no frame that was not read has a
history. -/
structure Rearms (w : TapWorld) : Prop where
  orderly : ∃ l, Orderly w.world l
  future : ∀ i, w.count ≤ i → w.calls i = 0 ∧ w.destroyed i = false
  token : Idle w ∨ ∃ p i, Waiting w p i

section
variable {host : Host} {w w' : TapWorld} {world : World} {l : Line Ticket}
  {e : SendQueue.Event} {accepted : Bool} {p x : PacketPtr} {i : Nat}

open TapWorld

/-! #### Packets without a callback -/

/-- The packet has no callback and holds no frame. -/
structure Plain (w : TapWorld) (x : PacketPtr) : Prop where
  cb : w.cb x = false
  frameOf : w.frameOf x = none

/-- Writing the value that is there changes nothing. -/
theorem update_own {α β : Type} [DecidableEq α] {f : α → β} {a : α} {b : β} (h : f a = b) :
    Function.update f a b = f := by
  rw [← h, Function.update_eq_self]

/-- The end of `doSend` for a packet without a callback runs nothing. -/
theorem Plain.runCallback (h : Plain w x) : w.runCallback x = w := by
  unfold TapWorld.runCallback
  rw [if_neg (by rw [h.cb]; decide)]
  dsimp only
  rw [update_own h.cb]

/-- Deleting a packet without a callback and without a frame leaves the tap interface alone. -/
theorem Plain.deletePacket (h : Plain w x) : w.deletePacket x = w := by
  unfold TapWorld.deletePacket
  rw [update_own h.cb, update_own h.frameOf, h.frameOf]

/-- The same for the release of a reference, whether it is the last one or not. -/
theorem Plain.released (h : Plain w x) : w.released x = w := by
  unfold TapWorld.released
  split
  · rw [if_neg (by rw [h.cb]; decide), h.deletePacket]
  · rfl

/-- A step that is about packets without a callback changes the queue and the owners only. -/
theorem queueStep_plain (hplain : ∀ x, Concerns w.world x e → Plain w x)
    (hrun : w.world.exec e = .ok (world, accepted)) :
    w.queueStep e = .ok { w with world := world } := by
  unfold queueStep
  rw [hrun]
  -- Only a transmission and a drop release a packet, and it is a plain one here.
  cases e with
  | enqueue p highPrio => rfl
  | transmit ready =>
    cases ready with
    | false => rfl
    | true =>
      cases hq : w.world.q.queue with
      | nil => rfl
      | cons p rest =>
        have hp := hplain p ⟨rfl, by rw [hq]; rfl⟩
        have hp' : Plain { w with world := world } p := ⟨hp.cb, hp.frameOf⟩
        show Except.ok (({ w with world := world }.runCallback p).released p) = _
        rw [hp'.runCallback, hp'.released]
  | create p =>
    show Except.ok { w with world := world, cb := Function.update w.cb p false } = _
    rw [update_own (hplain p rfl).cb]
  | take p => rfl
  | drop p =>
    -- The packet is a plain one, so releasing it does nothing more.
    have hp := hplain p rfl
    have hp' : Plain { w with world := world } p := ⟨hp.cb, hp.frameOf⟩
    show Except.ok ({ w with world := world }.released p) = _
    rw [hp'.released]

/-- In the idle state no packet has a callback. -/
theorem Idle.plain (h : Idle w) (x : PacketPtr) : Plain w x :=
  ⟨by rw [h.cb], by rw [h.frameOf]⟩

/-- While one frame is on its way, no other packet has one. -/
theorem Waiting.plain (h : Waiting w p i) (hx : x ≠ p) : Plain w x :=
  ⟨by rw [h.cb, Function.update_of_ne hx], by rw [h.frameOf, Function.update_of_ne hx]⟩

/-! #### Steps of the queue and of other owners -/

/-- The queue has the only reference to a packet that waits. -/
theorem Waiting.refcount (h : Waiting w p i) (ho : Orderly w.world l) :
    w.world.q.refcount p = 1 := by
  rw [ho.counted, h.owned, h.queued]

/-- Nobody else can do anything with it. -/
theorem Waiting.concerns (h : Waiting w p i) (ho : Orderly w.world l) (he : e.Possible w.world)
    (hc : Concerns w.world p e) : e = .transmit true ∧ w.world.q.queue.head? = some p := by
  have howned : ¬0 < w.world.owned p := by
    rw [h.owned]
    exact Nat.lt_irrefl 0
  cases e with
  | enqueue x highPrio =>
    cases hc
    exact absurd he howned
  | transmit ready => exact ⟨by rw [hc.1], hc.2⟩
  | create x =>
    cases hc
    have hfree : w.world.q.refcount p = 0 := he
    rw [h.refcount ho] at hfree
    cases hfree
  | take x =>
    cases hc
    exact absurd he howned
  | drop x =>
    cases hc
    exact absurd he howned

/-! #### The end of a frame -/

/-- The history behind the callback and the deletion of a packet. -/
theorem OnItsWay.history (h : OnItsWay w p i) :
    ((w.tapSendcb p).deletePacket p).calls = Function.update w.calls i 1 ∧
      ((w.tapSendcb p).deletePacket p).destroyed = Function.update w.destroyed i true := by
  have hp : w.frameOf p = some i := by rw [h.frameOf, Function.update_self]
  constructor
  · unfold deletePacket tapSendcb
    rw [hp]
    show Function.update w.calls i (w.calls i + 1) = _
    rw [h.called]
  · unfold deletePacket tapSendcb
    rw [hp]

/-- The callback has been run and the packet is deleted: the token is back. -/
theorem OnItsWay.finish (h : OnItsWay w p i) : Idle ((w.tapSendcb p).deletePacket p) := by
  obtain ⟨hcalls, hdestroyed⟩ := h.history
  refine ⟨?_, ?_, ?_, fun j hj => ?_⟩
  · show w.armed + 1 = 1
    rw [h.armed]
  · show Function.update w.cb p false = _
    rw [h.cb, Function.update_idem, update_own rfl]
  · show Function.update w.frameOf p none = _
    rw [h.frameOf, Function.update_idem, update_own rfl]
  · have hlast : j < w.count := hj
    rw [h.count] at hlast
    rw [hcalls, hdestroyed]
    by_cases hji : j = i
    · rw [hji, Function.update_self, Function.update_self]
      exact ⟨rfl, rfl⟩
    · rw [Function.update_of_ne hji, Function.update_of_ne hji]
      exact h.done j (by omega)

/-- Finishing the frame `i` does not touch the history of the frames that were not read yet. -/
theorem OnItsWay.finish_future (h : OnItsWay w p i)
    (hfuture : ∀ j, w.count ≤ j → w.calls j = 0 ∧ w.destroyed j = false) (j : Nat)
    (hj : w.count ≤ j) : ((w.tapSendcb p).deletePacket p).calls j = 0 ∧
      ((w.tapSendcb p).deletePacket p).destroyed j = false := by
  obtain ⟨hcalls, hdestroyed⟩ := h.history
  have hne : j ≠ i := by
    rw [h.count] at hj
    omega
  rw [hcalls, hdestroyed, Function.update_of_ne hne, Function.update_of_ne hne]
  exact hfuture j hj

/-- The last reference of a packet that still has its callback. -/
theorem OnItsWay.released (h : OnItsWay w p i) (hgone : w.world.q.refcount p = 0) :
    w.released p = (w.tapSendcb p).deletePacket p := by
  unfold TapWorld.released
  rw [if_pos hgone, if_pos (by rw [h.cb, Function.update_self])]

/-- `doSend` and the reference of the queue. -/
theorem OnItsWay.sent (h : OnItsWay w p i) (hgone : w.world.q.refcount p = 0) :
    (w.runCallback p).released p = (w.tapSendcb p).deletePacket p := by
  have hcb : w.cb p = true := by rw [h.cb, Function.update_self]
  unfold TapWorld.runCallback
  rw [if_pos hcb]
  unfold TapWorld.released
  dsimp only
  have hlast : (w.tapSendcb p).world.q.refcount p = 0 := hgone
  rw [if_pos hlast, if_neg (by rw [Function.update_self]; decide)]
  -- the callback is cleared twice
  unfold TapWorld.deletePacket
  rw [Function.update_idem]

/-- The packet that waits leaves the queue: `doSend` runs the callback, and the packet goes. -/
theorem Waiting.transmit (h : Waiting w p i) (ho : Orderly w.world l)
    (hfuture : ∀ j, w.count ≤ j → w.calls j = 0 ∧ w.destroyed j = false)
    {rest : List PacketPtr} (hq : w.world.q.queue = p :: rest) (hpending : 0 < w.world.q.pending) :
    ∃ w', w.queueStep (.transmit true) = .ok w' ∧ Rearms w' ∧ Idle w' ∧ w'.count = w.count := by
  obtain ⟨world, accepted, hrun, ho'⟩ := ho.exec (e := .transmit true) hpending
  obtain ⟨howned, hqueue⟩ := queueExec_transmit ho hq hrun
  have hgone : world.q.refcount p = 0 := by
    have hcount := h.queued
    rw [hq, List.count_cons_self] at hcount
    rw [ho'.counted, howned, h.owned, hqueue]
    omega
  have hway : OnItsWay { w with world := world } p i := ⟨h.armed, h.count, h.cb, h.frameOf,
    h.called, h.alive, h.done⟩
  refine ⟨_, ?_, ⟨⟨_, ho'⟩, hway.finish_future hfuture, .inl hway.finish⟩, hway.finish, rfl⟩
  unfold queueStep
  rw [hrun, hq]
  show Except.ok (({ w with world := world }.runCallback p).released p) = _
  rw [hway.sent hgone]

/-- Every step of the queue or of another owner keeps the invariant. -/
theorem Rearms.queueStep (h : Rearms w) (he : e.Possible w.world) :
    ∃ w', w.queueStep e = .ok w' ∧ Rearms w' := by
  obtain ⟨l, ho⟩ := h.orderly
  obtain ⟨world, accepted, hrun, ho'⟩ := ho.exec he
  rcases h.token with hidle | ⟨p, i, hwait⟩
  · refine ⟨_, queueStep_plain (fun x _ => hidle.plain x) hrun, ⟨_, ho'⟩, h.future, .inl ?_⟩
    exact ⟨hidle.armed, hidle.cb, hidle.frameOf, hidle.done⟩
  by_cases hc : Concerns w.world p e
  · obtain ⟨rfl, hhead⟩ := hwait.concerns ho he hc
    obtain ⟨rest, hq⟩ := List.head?_eq_some_iff.mp hhead
    obtain ⟨w', hstep, hkeep, -⟩ := hwait.transmit ho h.future hq he
    exact ⟨w', hstep, hkeep⟩
  · have hplain : ∀ x, Concerns w.world x e → Plain w x := fun x hx =>
      hwait.plain fun hxp => hc (hxp ▸ hx)
    obtain ⟨howned, hcount⟩ := queueExec_keeps ho he hrun hc
    refine ⟨_, queueStep_plain hplain hrun, ⟨_, ho'⟩, h.future, .inr ⟨p, i, ?_⟩⟩
    exact ⟨⟨hwait.armed, hwait.count, hwait.cb, hwait.frameOf, hwait.called, hwait.alive,
      hwait.done⟩, howned.trans hwait.owned, hcount.trans hwait.queued⟩

/-! #### A frame is read -/

/-- `tap_recv` has the packet of the frame, and the queue may have it too. -/
structure Held (w : TapWorld) (p : PacketPtr) (i : Nat) : Prop extends OnItsWay w p i where
  owned : w.world.owned p = 1
  queued : w.world.q.queue.count p ≤ 1
  orderly : ∃ l, Orderly w.world l
  future : ∀ j, w.count ≤ j → w.calls j = 0 ∧ w.destroyed j = false

/-- The packet of the next frame. -/
theorem Idle.newFrame (h : Idle w) (ho : Orderly w.world l)
    (hfuture : ∀ j, w.count ≤ j → w.calls j = 0 ∧ w.destroyed j = false)
    (hfree : w.world.q.refcount p = 0) :
    ∃ w', TapWorld.newFrame { w with armed := w.armed - 1 } p = .ok w' ∧ Held w' p w.count ∧
      w'.routing = w.routing ∧ w'.world.q.queue.count p = 0 := by
  obtain ⟨world, accepted, hrun, ho'⟩ := ho.exec (e := .create p) hfree
  obtain ⟨howned, hkept⟩ := queueExec_create hrun
  -- A packet without references is not in the queue.
  have hnone : w.world.q.queue.count p = 0 := by
    have hcount := ho.counted p
    omega
  have hqueue : world.q.queue.count p = 0 := by rw [hkept]; exact hnone
  have hcreate : ({ w with armed := w.armed - 1 } : TapWorld).queueStep (.create p) =
      .ok { w with armed := w.armed - 1, world := world } := by
    refine queueStep_plain (w := { w with armed := w.armed - 1 }) (fun x _ => ?_) hrun
    exact ⟨(h.plain x).cb, (h.plain x).frameOf⟩
  -- The packet gets the next number and a callback.
  refine ⟨{ w with
      armed := w.armed - 1
      world := world
      frameOf := Function.update w.frameOf p (some w.count)
      count := w.count + 1
      cb := Function.update w.cb p true }, ?_, ?_, rfl, hqueue⟩
  · unfold TapWorld.newFrame
    rw [hcreate, except_bind_ok]
    unfold setSendCallback
    dsimp only
    rw [if_neg (by rw [(h.plain p).cb]; decide)]
  · obtain ⟨hcalls, hdestroyed⟩ := hfuture w.count (Nat.le_refl _)
    -- The one registration was used up by this call.
    have harmed : w.armed - 1 = 0 := by rw [h.armed]
    refine ⟨⟨harmed, rfl, ?_, ?_, hcalls, hdestroyed, h.done⟩, howned, ?_, ⟨_, ho'⟩, ?_⟩
    · show Function.update w.cb p true = _
      rw [h.cb]
    · show Function.update w.frameOf p _ = _
      rw [h.frameOf]
    · show world.q.queue.count p ≤ 1
      omega
    · intro j hj
      have hj : w.count + 1 ≤ j := hj
      exact hfuture j (by omega)

/-- The routing sends the packet or not. -/
theorem Held.dispatch (h : Held w p i) (hnone : w.world.q.queue.count p = 0) {clock : Clock}
    {outcome : Option BasePacket ⊕ UnicastAction}
    (hdeliver : ∀ q, outcome = .inr (.deliver q) →
      ∃ x, TapInterface.recvUnicast host clock w.routing q = .ok x) :
    ∃ w', w.dispatch host clock p outcome = .ok w' ∧ Held w' p i := by
  obtain ⟨l, ho⟩ := h.orderly
  -- A frame that is sent goes through the queue once.
  have hsend : ∃ w', w.queueStep (.enqueue p false) = .ok w' ∧ Held w' p i := by
    have howned : 0 < w.world.owned p := by rw [h.owned]; exact Nat.one_pos
    obtain ⟨q, accepted, hq, ho'⟩ := ho.enqueue howned false
    refine ⟨{ w with world := { w.world with q := q } }, ?_, ?_⟩
    · show (do
        let x ← (do
          let y ← w.world.q.enqueuePacket p false
          Except.ok (({ w.world with q := y.1 } : World), y.2))
        Except.ok { w with world := x.1 }) = _
      rw [hq]
      rfl
    · -- It was not there before, so it is there at most once now.
      have hcount : q.queue.count p ≤ 1 := by
        rcases enqueuePacket_cases (ho.refcount_pos howned) hq with
          ⟨-, hsame⟩ | ⟨-, front, back, hs, hins⟩
        · rw [hsame]
          exact h.queued
        · rw [hins, inserted_count hs, hnone, if_pos rfl]
      exact ⟨⟨h.armed, h.count, h.cb, h.frameOf, h.called, h.alive, h.done⟩, h.owned, hcount,
        ⟨_, ho'⟩, h.future⟩
  -- One case for each way in which the frame can go.
  cases outcome with
  | inl sent =>
    cases sent with
    | none => exact ⟨w, rfl, h⟩
    | some q => exact hsend
  | inr action =>
    cases action with
    -- No route: the packet is only dropped.
    | drop => exact ⟨w, rfl, h⟩
    -- A frame for this station is written to its own device.
    | deliver q =>
      obtain ⟨⟨r, q'⟩, hrun⟩ := hdeliver q rfl
      refine ⟨{ w with routing := r }, ?_, ?_⟩
      · show (do
          let x ← TapInterface.recvUnicast host clock w.routing q
          Except.ok { w with routing := x.1 }) = _
        rw [hrun]
        rfl
      · exact ⟨⟨h.armed, h.count, h.cb, h.frameOf, h.called, h.alive, h.done⟩, h.owned, h.queued,
          h.orderly, h.future⟩
    | send q => exact hsend

/-- `tap_recv` drops its reference. The packet waits in the queue or is gone. -/
theorem Held.drop (h : Held w p i) : ∃ w', w.queueStep (.drop p) = .ok w' ∧ Rearms w' := by
  obtain ⟨l, ho⟩ := h.orderly
  have hpossible : (SendQueue.Event.drop p).Possible w.world := by
    show 0 < w.world.owned p
    rw [h.owned]
    exact Nat.one_pos
  obtain ⟨world, accepted, hrun, ho'⟩ := ho.exec hpossible
  obtain ⟨hdropped, hqueue⟩ := queueExec_drop ho hpossible hrun
  have howned : world.owned p = 0 := by rw [hdropped, h.owned]
  -- The handler's reference is gone, and the packet is still on its way.
  have hway : OnItsWay { w with world := world } p i := ⟨h.armed, h.count, h.cb, h.frameOf,
    h.called, h.alive, h.done⟩
  have hstep : w.queueStep (.drop p) = .ok ({ w with world := world }.released p) := by
    unfold TapWorld.queueStep
    rw [hrun]
    rfl
  have hcount := ho'.counted p
  rw [howned, hqueue, Nat.zero_add] at hcount
  refine ⟨_, hstep, ?_⟩
  -- No reference is left: the callback runs and registers the handler again.
  by_cases hgone : world.q.refcount p = 0
  · rw [hway.released hgone]
    exact ⟨⟨_, ho'⟩, hway.finish_future h.future, .inl hway.finish⟩
  · -- The queue still has one, so the callback comes later.
    have hkept : ({ w with world := world } : TapWorld).released p = { w with world := world } := by
      unfold TapWorld.released
      exact if_neg hgone
    rw [hkept]
    have hone := h.queued
    refine ⟨⟨_, ho'⟩, h.future, .inr ⟨p, i, hway, howned, ?_⟩⟩
    show world.q.queue.count p = 1
    rw [hqueue]
    omega

/-- The routing and the handler of frames return for the frame that an event reads. -/
def RoutingReturns (host : Host) (w : TapWorld) : TapWorld.Event → Prop
  | .tap clock true frame _ => ∃ r outcome,
    TapInterface.tapRecv host clock w.routing frame = .ok (r, outcome) ∧
      ∀ q, outcome = .inr (.deliver q) → ∃ x, TapInterface.recvUnicast host clock r q = .ok x
  | _ => True

/-- Every event returns unless the routing fails, and keeps the invariant. -/
theorem Rearms.exec (h : Rearms w) {e : TapWorld.Event} (he : e.Possible w)
    (hrouting : RoutingReturns host w e) : ∃ w', w.exec host e = .ok w' ∧ Rearms w' := by
  cases e with
  | queue e => exact h.queueStep he
  -- Nothing outside the queue and the tap device touches the packets.
  | elsewhere r =>
    refine ⟨_, rfl, h.orderly, h.future, ?_⟩
    rcases h.token with hidle | ⟨p, i, hwait⟩
    · exact .inl ⟨hidle.armed, hidle.cb, hidle.frameOf, hidle.done⟩
    · exact .inr ⟨p, i, ⟨hwait.armed, hwait.count, hwait.cb, hwait.frameOf, hwait.called,
        hwait.alive, hwait.done⟩, hwait.owned, hwait.queued⟩
  | tap clock ready frame p =>
    obtain ⟨harmed, -, hfree⟩ := he
    rcases h.token with hidle | ⟨p', i, hwait⟩
    · -- Nothing to read: the handler is registered again.
      cases ready with
      | false =>
        refine ⟨_, rfl, h.orderly, h.future, .inl ⟨?_, hidle.cb, hidle.frameOf, hidle.done⟩⟩
        show w.armed - 1 + 1 = 1
        rw [hidle.armed]
      -- A frame is read: packet, way and the end of the handler, one after the other.
      | true =>
        obtain ⟨l, ho⟩ := h.orderly
        obtain ⟨r, outcome, hrun, hdeliver⟩ := hrouting
        obtain ⟨w1, h1, hheld1, hr1, hnone⟩ := hidle.newFrame ho h.future hfree
        have hheld : Held { w1 with routing := r } p w.count :=
          ⟨⟨hheld1.armed, hheld1.count, hheld1.cb, hheld1.frameOf, hheld1.called, hheld1.alive,
            hheld1.done⟩, hheld1.owned, hheld1.queued, hheld1.orderly, hheld1.future⟩
        obtain ⟨w2, h2, hheld2⟩ := hheld.dispatch hnone hdeliver
        obtain ⟨w3, h3, hrearms⟩ := hheld2.drop
        refine ⟨w3, ?_, hrearms⟩
        show TapWorld.tapRecv host clock { w with armed := w.armed - 1 } true frame p = _
        unfold TapWorld.tapRecv
        rw [if_neg (by decide), h1, except_bind_ok, hr1, hrun, except_bind_ok]
        dsimp only
        rw [h2, except_bind_ok]
        exact h3
    · -- while a frame is on its way, `tap_recv` is not registered
      rw [hwait.armed] at harmed
      exact absurd harmed (Nat.lt_irrefl 0)

/-! ### Runs -/

/-- An event that has returned has found a routing that returns. -/
theorem routingReturns_of_exec (h : Rearms w) {e : TapWorld.Event} (he : e.Possible w)
    (hrun : w.exec host e = .ok w') : RoutingReturns host w e := by
  cases e with
  | queue e => trivial
  | elsewhere r => trivial
  | tap clock ready frame p =>
    cases ready with
    | false => trivial
    | true =>
      obtain ⟨harmed, -, hfree⟩ := he
      obtain ⟨l, ho⟩ := h.orderly
      -- The handler is registered, so no frame is on its way.
      have hidle : Idle w := by
        rcases h.token with hidle | ⟨p', i, hwait⟩
        · exact hidle
        · rw [hwait.armed] at harmed
          exact absurd harmed (Nat.lt_irrefl 0)
      obtain ⟨w1, h1, hheld1, hr1, hnone⟩ := hidle.newFrame ho h.future hfree
      have hcall : TapWorld.tapRecv host clock { w with armed := w.armed - 1 } true frame p =
          .ok w' := hrun
      unfold TapWorld.tapRecv at hcall
      rw [if_neg (by decide), h1, except_bind_ok, hr1] at hcall
      obtain ⟨⟨r, outcome⟩, htap, hcall⟩ := bind_eq_ok.mp hcall
      obtain ⟨w2, hdispatch, -⟩ := bind_eq_ok.mp hcall
      -- The call has returned, and so did each of its parts.
      refine ⟨r, outcome, htap, fun q hq => ?_⟩
      rw [hq] at hdispatch
      obtain ⟨x, hx, -⟩ := bind_eq_ok.mp hdispatch
      exact ⟨x, hx⟩

/-- The invariant holds in every run. -/
theorem rearms_of_run (h : TapWorld.Run host w) : Rearms w := by
  induction h with
  | start r =>
    exact ⟨⟨_, .start⟩, fun _ _ => ⟨rfl, rfl⟩,
      .inl ⟨rfl, rfl, rfl, fun i hi => absurd hi (Nat.not_lt_zero i)⟩⟩
  | step w w' e run possible hexec ih =>
    obtain ⟨w1, h1, hrearms⟩ := ih.exec possible (routingReturns_of_exec ih possible hexec)
    rw [hexec] at h1
    cases h1
    exact hrearms

/-- The device takes the packet at the front of the queue. -/
def Transmits (w w' : TapWorld) : Prop :=
  0 < w.world.q.pending ∧ w.queueStep (.transmit true) = .ok w'

/-- A device that takes packets gets to the packet that waits. The induction is on the packets
in front of it. -/
theorem Waiting.drains {front back : List PacketPtr} (h : Waiting w p i)
    (ho : Orderly w.world l)
    (hfuture : ∀ j, w.count ≤ j → w.calls j = 0 ∧ w.destroyed j = false)
    (hq : w.world.q.queue = front ++ p :: back) (hfront : p ∉ front) :
    ∃ w', Relation.ReflTransGen Transmits w w' ∧ Idle w' ∧ w'.count = w.count := by
  have hpending : 0 < w.world.q.pending := by
    rw [ho.registered, due, if_neg (by rw [hq]; simp)]
    exact Nat.one_pos
  induction front generalizing w l with
  | nil =>
    -- The frame is the first: the next callback hands it over.
    obtain ⟨w', hstep, -, hidle, hcount⟩ := h.transmit ho hfuture hq hpending
    exact ⟨w', .single ⟨hpending, hstep⟩, hidle, hcount⟩
  | cons x front ih =>
    have hne : x ≠ p := fun hxp => hfront (hxp ▸ List.mem_cons_self)
    -- The first packet is another one, so the frame only moves up.
    have hother : ¬Concerns w.world p (.transmit true) := by
      rintro ⟨-, hhead⟩
      rw [hq] at hhead
      exact hne (Option.some.inj hhead)
    obtain ⟨world, accepted, hrun, ho'⟩ := ho.exec (e := .transmit true) hpending
    obtain ⟨howned, hcount⟩ := queueExec_keeps (e := .transmit true) ho hpending hrun hother
    obtain ⟨-, hrest⟩ := queueExec_transmit ho hq hrun
    have hstep := queueStep_plain (w := w) (fun y hy => h.plain fun hyp => hother (hyp ▸ hy)) hrun
    have hwait : Waiting { w with world := world } p i :=
      ⟨⟨h.armed, h.count, h.cb, h.frameOf, h.called, h.alive, h.done⟩, howned.trans h.owned,
        hcount.trans h.queued⟩
    have hregistered : 0 < world.q.pending := by
      rw [ho'.registered, due, if_neg (by rw [hrest]; simp)]
      exact Nat.one_pos
    obtain ⟨w', hway, hidle, hsame⟩ := ih hwait ho' hfuture hrest
      (fun hmem => hfront (List.mem_cons_of_mem _ hmem)) hregistered
    exact ⟨w', .head ⟨hpending, hstep⟩ hway, hidle, hsame⟩

/-- The number of frames whose callback has not been run. -/
def unanswered (w : TapWorld) : Nat := (List.range w.count).countP fun i => w.calls i = 0

/-- In the idle state every frame was answered once. -/
theorem Idle.unanswered (h : Idle w) : unanswered w = 0 := by
  unfold Proofs.unanswered
  rw [List.countP_eq_zero]
  intro i hi
  rw [(h.done i (List.mem_range.mp hi)).1]
  decide

/-- While a frame waits, it is the only one without an answer: those in front of it are done with.
-/
theorem Waiting.unanswered (h : Waiting w p i) : unanswered w = 1 := by
  have hdone : (List.range i).countP (fun j => w.calls j = 0) = 0 := by
    rw [List.countP_eq_zero]
    intro j hj
    rw [(h.done j (List.mem_range.mp hj)).1]
    decide
  unfold Proofs.unanswered
  rw [h.count, List.range_succ, List.countP_append, hdone, List.countP_singleton, h.called]
  rfl

/-- In every run: the callback of a frame is run once at most, and the packet of a frame is
destroyed exactly if it has been run. The registration of `tap_recv` and the frames without a
call of their callback are one together. While there is such a frame, the device need only take
packets from the queue to answer it, and no event fails unless the routing does. -/
theorem tap_rearmed_once (h : TapWorld.Run host w) :
    (∀ i, i < w.count → w.calls i ≤ 1 ∧ (w.destroyed i = true ↔ w.calls i = 1)) ∧
    w.armed + unanswered w = 1 ∧
    (w.armed = 0 → ∃ w', Relation.ReflTransGen Transmits w w' ∧ w'.armed = 1 ∧
      ∀ i, i < w.count → w'.calls i = 1) ∧
    ∀ e : TapWorld.Event, e.Possible w → RoutingReturns host w e →
      ∃ w', w.exec host e = .ok w' := by
  have hrearms := rearms_of_run h
  have hreturns : ∀ e : TapWorld.Event, e.Possible w → RoutingReturns host w e →
      ∃ w', w.exec host e = .ok w' := by
    intro e he hrouting
    obtain ⟨w', hrun, -⟩ := hrearms.exec he hrouting
    exact ⟨w', hrun⟩
  rcases hrearms.token with hidle | ⟨p, i, hwait⟩
  · -- The handler is registered, and every frame so far is done.
    refine ⟨fun i hi => ?_, by rw [hidle.armed, hidle.unanswered], fun h0 => ?_, hreturns⟩
    · obtain ⟨hcalled, hdestroyed⟩ := hidle.done i hi
      exact ⟨Nat.le_of_eq hcalled, fun _ => hcalled, fun _ => hdestroyed⟩
    · rw [hidle.armed] at h0
      cases h0
  · -- One frame is on its way, and it is the last that was made.
    refine ⟨fun j hj => ?_, by rw [hwait.armed, hwait.unanswered], fun _ => ?_, hreturns⟩
    · by_cases hji : j = i
      · rw [hji, hwait.called, hwait.alive]
        exact ⟨Nat.zero_le 1, by decide⟩
      · rw [hwait.count] at hj
        obtain ⟨hcalled, hdestroyed⟩ := hwait.done j (by omega)
        exact ⟨Nat.le_of_eq hcalled, fun _ => hcalled, fun _ => hdestroyed⟩
    · obtain ⟨l, ho⟩ := hrearms.orderly
      -- It is in the queue, so the device gets to it.
      have hmem : p ∈ w.world.q.queue :=
        List.count_pos_iff.mp (by rw [hwait.queued]; exact Nat.one_pos)
      obtain ⟨front, back, hq, hfront⟩ := List.eq_append_cons_of_mem hmem
      obtain ⟨w', hway, hidle, hcount⟩ := hwait.drains ho hrearms.future hq hfront
      exact ⟨w', hway, hidle.armed, fun j hj => (hidle.done j (by rw [hcount]; exact hj)).1⟩

/-- A frame for an unknown address waits in the queue, and the device takes it. -/
theorem tap_rearmed_once_sent : ∃ w w' : TapWorld, TapWorld.Run (pairHosts false) w ∧
    w.count = 1 ∧ w.armed = 0 ∧ w.world.q.queue = [1] ∧
    Relation.ReflTransGen Transmits w w' ∧ w'.armed = 1 ∧ w'.calls 0 = 1 := by
  have h1 : TapWorld.Run (pairHosts false) _ :=
    .step _ _ (.tap ⟨0, 0⟩ true (List.replicate 14 0) 1) (.start (pairRouting false))
      ⟨Nat.one_pos, by decide, rfl⟩ rfl
  obtain ⟨w', hway, harmed, hcalls⟩ := (tap_rearmed_once h1).2.2.1 rfl
  exact ⟨_, w', h1, rfl, rfl, rfl, hway, harmed, hcalls 0 Nat.one_pos⟩

end

end Awds.Proofs
