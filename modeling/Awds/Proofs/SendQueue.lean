import Awds.SendQueue

/-!
# `Awds.Proofs.SendQueue`: what the send queue guarantees

The queue infers from its length whether the transmit callback has to be registered, in
`enqueuePacket` and again in `xmit_cb`, while packets enter at both ends. `Orderly` is the
invariant of its runs. It ties the queue to the waiting line of the acceptances: the pointers
in the queue are the packets of the waiting acceptances, and the packets that `doSend` got
are those of the served ones. That nothing is lost, sent twice or overtaken by a packet of
low priority is then `Line.Fair`.

`Orderly.exec` is the step lemma. It also says that no event of a run fails, so the
assertions of `xmit_cb` and `unref` hold.
-/

set_option autoImplicit false

namespace Awds.Proofs

open Awds.Lib Awds.SendQueue

/-! ### The calls -/

section
variable {s : SendQueue} {p : PacketPtr}

/-- Registering the callback of the device does not touch the queue. -/
@[simp] theorem registerFirst_queue : s.registerFirst.queue = s.queue := by
  unfold registerFirst
  split <;> rfl

/-- It takes no reference to a packet, either. -/
@[simp] theorem registerFirst_refcount : s.registerFirst.refcount = s.refcount := by
  unfold registerFirst
  split <;> rfl

/-- Nothing is sent before the device is ready. -/
@[simp] theorem registerFirst_sent : s.registerFirst.sent = s.sent := by
  unfold registerFirst
  split <;> rfl

/-- The number of registrations that belongs to a queue. -/
def due (queue : List PacketPtr) : Nat := if queue = [] then 0 else 1

/-- The queue is one longer than it was when its registrations were counted. -/
theorem registerFirst_pending {old : List PacketPtr} (hpending : s.pending = due old)
    (hlen : s.queue.length = old.length + 1) : s.registerFirst.pending = due s.queue := by
  have hne : s.queue ≠ [] := List.ne_nil_of_length_pos (by omega)
  rw [due, if_neg hne]
  cases old with
  | nil =>
    have hone : s.queue.length = 1 := hlen
    rw [registerFirst, if_pos hone]
    show s.pending + 1 = 1
    rw [hpending]
    rfl
  | cons x xs =>
    rw [registerFirst, if_neg (by rw [hlen]; simp), hpending]
    rfl

/-- A reference that a caller takes through a live pointer. -/
theorem ref_run (hp : 0 < s.refcount p) :
    s.ref p = .ok { s with refcount := Function.update s.refcount p (s.refcount p + 1) } :=
  if_neg hp.ne'

/-- `unref` takes one reference off. It asserts that there is one. -/
theorem unref_run (hp : 0 < s.refcount p) :
    s.unref p = .ok { s with refcount := Function.update s.refcount p (s.refcount p - 1) } :=
  if_neg hp.ne'

/-- The queue behind the insertion of `p` between `front` and `back`. -/
def inserted (s : SendQueue) (front : List PacketPtr) (p : PacketPtr) (back : List PacketPtr) :
    SendQueue :=
  registerFirst { s with
    queue := front ++ p :: back
    refcount := Function.update s.refcount p (s.refcount p + 1) }

/-- What `enqueuePacket` does for a caller with a live pointer. -/
theorem enqueuePacket_run (hp : 0 < s.refcount p) (highPrio : Bool) :
    s.enqueuePacket p highPrio =
      if highPrio = true then .ok (inserted s [] p s.queue, true)
      else if queueLength ≤ s.queue.length then .ok (s, false)
      else .ok (inserted s s.queue p [], true) := by
  unfold enqueuePacket
  rw [ref_run hp]
  rfl

/-- `enqueuePacket` refuses the packet and does nothing, or puts it somewhere. -/
theorem enqueuePacket_cases {q : SendQueue} {highPrio accepted : Bool} (hp : 0 < s.refcount p)
    (h : s.enqueuePacket p highPrio = .ok (q, accepted)) :
    (accepted = false ∧ q = s) ∨ (accepted = true ∧
      ∃ front back, s.queue = front ++ back ∧ q = inserted s front p back) := by
  rw [enqueuePacket_run hp] at h
  split at h
  · cases h
    exact .inr ⟨rfl, [], s.queue, rfl, rfl⟩
  split at h
  · cases h
    exact .inl ⟨rfl, rfl⟩
  · cases h
    exact .inr ⟨rfl, s.queue, [], (List.append_nil _).symm, rfl⟩

/-- The inserted packet is in the queue once more than before, and the others as often as before. -/
theorem inserted_count {front back : List PacketPtr} (hq : s.queue = front ++ back)
    (x : PacketPtr) : (inserted s front p back).queue.count x =
      s.queue.count x + if p = x then 1 else 0 := by
  have hqueue : (inserted s front p back).queue = front ++ p :: back := registerFirst_queue
  rw [hqueue, hq, List.count_append, List.count_append, List.count_cons, Nat.add_assoc]
  simp

/-- The registrations behind the insertion of a packet. -/
theorem inserted_pending {front back : List PacketPtr} (hpending : s.pending = due s.queue)
    (hq : s.queue = front ++ back) :
    (inserted s front p back).pending = due (inserted s front p back).queue := by
  have hqueue : (inserted s front p back).queue = front ++ p :: back := registerFirst_queue
  rw [hqueue]
  refine registerFirst_pending hpending ?_
  rw [hq]
  simp only [List.length_append, List.length_cons]
  omega

/-- What `xmit_cb` does to a queue that is not empty. -/
theorem xmitCb_run {rest : List PacketPtr} (hq : s.queue = p :: rest) (hp : 0 < s.refcount p)
    (ready : Bool) :
    s.xmitCb ready = .ok
      (if ready = true then
        { s with
          queue := rest
          sent := s.sent ++ [p]
          refcount := Function.update s.refcount p (s.refcount p - 1)
          pending := s.pending + due rest }
      else { s with pending := s.pending + 1 }) := by
  obtain ⟨queue, refcount, pending, sent⟩ := s
  cases hq
  cases ready with
  | false => rfl
  | true =>
    show (do
      let s ← (doSend ⟨rest, refcount, pending, sent⟩ p).unref p
      Except.ok (if s.queue.length > 0 then s.registerCallback else s)) = _
    rw [unref_run (s := doSend ⟨rest, refcount, pending, sent⟩ p) hp]
    cases rest <;> rfl

end

/-! ### The invariant -/

/-- The state of the queue and its history fit together:

- `registered`: the callback is registered once if the queue is not empty, and not at all
  otherwise;
- `queued`, `handed`: the queue and the packets that `doSend` got are those of the waiting
  and of the served acceptances;
- `fair`: no acceptance is lost or served twice, and those of low priority keep their order;
- `numbered`: the acceptances are numbered in their order;
- `counted`: the counter of a packet is the number of the references that others hold and
  of its places in the queue. -/
structure Orderly (w : World) (l : Line Ticket) : Prop where
  registered : w.q.pending = due w.q.queue
  queued : w.q.queue = l.waiting.map Ticket.packet
  handed : w.q.sent = l.served.map Ticket.packet
  fair : l.Fair fun t => !t.highPrio
  numbered : l.admitted.map Ticket.nr = List.range l.admitted.length
  counted : ∀ p, w.q.refcount p = w.owned p + w.q.queue.count p

/-- The start: the queue is empty, and no packet has an owner. -/
theorem Orderly.start : Orderly {} {} where
  registered := rfl
  queued := rfl
  handed := rfl
  fair := .empty
  numbered := rfl
  counted _ := rfl

section
variable {w : World} {l : Line Ticket} {p : PacketPtr}

/-- A packet that somebody owns is allocated. -/
theorem Orderly.refcount_pos (h : Orderly w l) (hp : 0 < w.owned p) : 0 < w.q.refcount p := by
  rw [h.counted]
  omega

/-- The next number is new. -/
theorem numbered_snoc {ts : List Ticket} {t : Ticket}
    (h : ts.map Ticket.nr = List.range ts.length) (ht : t.nr = ts.length) :
    (ts ++ [t]).map Ticket.nr = List.range (ts ++ [t]).length := by
  rw [List.map_append, h, List.length_append, List.map_singleton, List.length_singleton,
    List.range_succ, ht]

/-- The counters behind the insertion of `p`. -/
theorem Orderly.counted_inserted (h : Orderly w l) {front back : List PacketPtr}
    (hq : w.q.queue = front ++ back) (x : PacketPtr) :
    (inserted w.q front p back).refcount x
      = w.owned x + (inserted w.q front p back).queue.count x := by
  have hold := h.counted x
  rw [hq, List.count_append] at hold
  have hqueue : (inserted w.q front p back).queue = front ++ p :: back := registerFirst_queue
  have hcount : (inserted w.q front p back).refcount
      = Function.update w.q.refcount p (w.q.refcount p + 1) := registerFirst_refcount
  rw [hcount, hqueue, List.count_append, List.count_cons]
  by_cases hx : x = p
  · subst hx
    rw [Function.update_self]
    simp only [BEq.rfl, if_pos]
    omega
  · rw [Function.update_of_ne hx, if_neg (by simpa using Ne.symm hx)]
    omega

/-- `enqueuePacket` returns and keeps the order of the line. The priority decides about the end of
the queue at which the packet waits. -/
theorem Orderly.enqueue (h : Orderly w l) (hp : 0 < w.owned p) (highPrio : Bool) :
    ∃ q accepted, w.q.enqueuePacket p highPrio = .ok (q, accepted) ∧
      Orderly { w with q := q } (record l (.enqueue p highPrio) accepted) := by
  rw [enqueuePacket_run (h.refcount_pos hp)]
  cases highPrio with
  -- A packet with priority enters in front, however long the queue is.
  | true =>
    refine ⟨inserted w.q [] p w.q.queue, true, rfl, ?_⟩
    show Orderly _ (l.admitFront ⟨l.admitted.length, p, true⟩)
    exact
      { registered := inserted_pending h.registered rfl
        queued := by
          show (registerFirst _).queue = p :: l.waiting.map Ticket.packet
          rw [registerFirst_queue, ← h.queued]
          rfl
        handed := by
          show (registerFirst _).sent = l.served.map Ticket.packet
          rw [registerFirst_sent]
          exact h.handed
        fair := h.fair.admitFront rfl
        numbered := numbered_snoc h.numbered rfl
        counted := h.counted_inserted rfl }
  | false =>
    -- Another is refused by a full queue, or it enters at the end.
    by_cases hfull : queueLength ≤ w.q.queue.length
    · refine ⟨w.q, false, by rw [if_pos hfull]; rfl, ?_⟩
      show Orderly w l
      exact h
    · refine ⟨inserted w.q w.q.queue p [], true, by rw [if_neg hfull]; rfl, ?_⟩
      have hback : w.q.queue = w.q.queue ++ [] := (List.append_nil _).symm
      show Orderly _ (l.admitBack ⟨l.admitted.length, p, false⟩)
      exact
        { registered := inserted_pending h.registered hback
          queued := by
            show (registerFirst _).queue = (l.waiting ++ [_]).map Ticket.packet
            rw [registerFirst_queue, List.map_append, ← h.queued]
            rfl
          handed := by
            show (registerFirst _).sent = l.served.map Ticket.packet
            rw [registerFirst_sent]
            exact h.handed
          fair := h.fair.admitBack
          numbered := numbered_snoc h.numbered rfl
          counted := h.counted_inserted hback }

/-- The callback runs only on a queue that is not empty. -/
theorem Orderly.transmit (h : Orderly w l) (hpending : 0 < w.q.pending) (ready : Bool) :
    ∃ q, xmitCb { w.q with pending := w.q.pending - 1 } ready = .ok q ∧
      Orderly { w with q := q } (record l (.transmit ready) true) := by
  cases hq : w.q.queue with
  -- An empty queue registers no callback.
  | nil =>
    rw [h.registered, hq] at hpending
    exact absurd hpending (by decide)
  | cons p rest =>
    have hone : w.q.pending = 1 := by
      rw [h.registered, hq]
      rfl
    have hp : 0 < w.q.refcount p := by
      rw [h.counted, hq, List.count_cons_self]
      omega
    have hwaiting := h.queued
    rw [hq] at hwaiting
    -- The first packet of the queue has the first ticket that waits.
    obtain ⟨t, ts, hts, ht, hrest⟩ := List.map_eq_cons_iff.mp hwaiting.symm
    have hrun := xmitCb_run (s := { w.q with pending := w.q.pending - 1 }) hq hp ready
    cases ready with
    -- The device is busy: nothing changes.
    | false =>
      refine ⟨_, hrun, ?_⟩
      show Orderly _ l
      exact
        { registered := by
            show w.q.pending - 1 + 1 = due w.q.queue
            rw [hone, hq]
            rfl
          queued := h.queued
          handed := h.handed
          fair := h.fair
          numbered := h.numbered
          counted := h.counted }
    -- The packet is handed over, and the reference of the queue goes.
    | true =>
      refine ⟨_, hrun, ?_⟩
      show Orderly _ l.serve
      exact
        { registered := by
            show w.q.pending - 1 + due rest = due rest
            rw [hone]
            omega
          queued := by
            show rest = (l.waiting.drop 1).map Ticket.packet
            rw [hts, ← hrest]
            rfl
          handed := by
            show w.q.sent ++ [p] = (l.served ++ l.waiting.take 1).map Ticket.packet
            rw [hts, List.map_append, ← h.handed, ← ht]
            rfl
          fair := h.fair.serve
          numbered := h.numbered
          counted := by
            intro x
            show Function.update w.q.refcount p (w.q.refcount p - 1) x
              = w.owned x + rest.count x
            have hx := h.counted x
            rw [hq, List.count_cons] at hx
            -- Only the count of that packet has changed.
            by_cases hxp : x = p
            · subst hxp
              rw [Function.update_self, hx]
              simp
            · rw [Function.update_of_ne hxp, hx, if_neg (by simpa using Ne.symm hxp)]
              rfl }

/-- The steps of other owners change counters only. -/
theorem Orderly.recount (h : Orderly w l) {q : SendQueue} {owned : PacketPtr → Nat}
    (hq : q = { w.q with refcount := q.refcount })
    (hcount : ∀ x, q.refcount x = owned x + w.q.queue.count x) : Orderly ⟨q, owned⟩ l := by
  rw [hq]
  exact
    { registered := h.registered
      queued := h.queued
      handed := h.handed
      fair := h.fair
      numbered := h.numbered
      counted := hcount }

/-- Every event that can happen returns and keeps the invariant. -/
theorem Orderly.exec (h : Orderly w l) {e : Event} (he : e.Possible w) :
    ∃ w' accepted, w.exec e = .ok (w', accepted) ∧ Orderly w' (record l e accepted) := by
  cases e with
  | enqueue p highPrio =>
    obtain ⟨q, accepted, hrun, hq⟩ := h.enqueue he highPrio
    refine ⟨{ w with q := q }, accepted, ?_, hq⟩
    simp only [World.exec, hrun]
    rfl
  | transmit ready =>
    obtain ⟨q, hrun, hq⟩ := h.transmit he ready
    refine ⟨{ w with q := q }, true, ?_, hq⟩
    simp only [World.exec, hrun]
    rfl
  | create p =>
    refine ⟨_, true, rfl, h.recount rfl fun x => ?_⟩
    -- a packet that is not allocated is neither owned nor queued
    have hfree : w.owned p + w.q.queue.count p = 0 := by
      rw [← h.counted]
      exact he
    show Function.update w.q.refcount p 1 x = Function.update w.owned p 1 x + w.q.queue.count x
    by_cases hx : x = p
    · subst hx
      rw [Function.update_self, Function.update_self]
      omega
    · rw [Function.update_of_ne hx, Function.update_of_ne hx, h.counted]
  | take p =>
    have hrun := ref_run (h.refcount_pos he)
    refine ⟨_, true, by simp only [World.exec, hrun]; rfl, h.recount rfl fun x => ?_⟩
    show Function.update w.q.refcount p (w.q.refcount p + 1) x
      = Function.update w.owned p (w.owned p + 1) x + w.q.queue.count x
    by_cases hx : x = p
    · subst hx
      rw [Function.update_self, Function.update_self, h.counted]
      omega
    · rw [Function.update_of_ne hx, Function.update_of_ne hx, h.counted]
  | drop p =>
    have hrun := unref_run (h.refcount_pos he)
    have hpos : 0 < w.owned p := he
    refine ⟨_, true, by simp only [World.exec, hrun]; rfl, h.recount rfl fun x => ?_⟩
    show Function.update w.q.refcount p (w.q.refcount p - 1) x
      = Function.update w.owned p (w.owned p - 1) x + w.q.queue.count x
    by_cases hx : x = p
    · subst hx
      rw [Function.update_self, Function.update_self, h.counted]
      omega
    · rw [Function.update_of_ne hx, Function.update_of_ne hx, h.counted]

/-- The invariant holds in every run. -/
theorem orderly_of_run (h : Run w l) : Orderly w l := by
  induction h with
  | start => exact .start
  | step _ he hrun ih =>
    obtain ⟨w1, accepted, hok, h1⟩ := ih.exec he
    rw [hok] at hrun
    cases hrun
    exact h1

end

/-! ### The guarantees -/

section
variable {w : World} {l : Line Ticket}

/-- No ticket is given twice: the tickets are numbered as they are admitted. -/
theorem Orderly.admitted_nodup (h : Orderly w l) : l.admitted.Nodup := by
  refine List.Nodup.of_map Ticket.nr ?_
  rw [h.numbered]
  exact List.nodup_range

/-- When `enqueuePacket` refuses a packet, and what that does. -/
theorem enqueuePacket_refused_iff {s q : SendQueue} {p : PacketPtr} {highPrio accepted : Bool}
    (hp : 0 < s.refcount p) (h : s.enqueuePacket p highPrio = .ok (q, accepted)) :
    (accepted = false ↔ highPrio = false ∧ queueLength ≤ s.queue.length) ∧
      (accepted = false → q = s) := by
  rw [enqueuePacket_run hp] at h
  cases highPrio with
  | true =>
    cases h
    simp
  | false =>
    by_cases hfull : queueLength ≤ s.queue.length
    · rw [if_neg (by decide), if_pos hfull] at h
      cases h
      simp [hfull]
    · rw [if_neg (by decide), if_neg hfull] at h
      cases h
      simp [hfull]

/-- In every run the transmit callback is registered once while the queue is not empty and
not at all otherwise, so that it never runs on an empty queue. The acceptances that have been
handed to `doSend` and those whose packets are in the queue are together the acceptances of
the run, each once, and those of low priority are in the order of their acceptance. A packet
is refused exactly if it has low priority and `QUEUE_LENGTH` packets are queued, and then
nothing changes. The counter of a packet is above the references of its other owners by its
number of places in the queue. -/
theorem sendQueue_guarantees (h : Run w l) :
    w.q.pending = (if w.q.queue = [] then 0 else 1) ∧
    (0 < w.q.pending → ∀ ready, ∃ q,
      xmitCb { w.q with pending := w.q.pending - 1 } ready = .ok q) ∧
    w.q.queue = l.waiting.map Ticket.packet ∧
    w.q.sent = l.served.map Ticket.packet ∧
    l.admitted.Nodup ∧ (l.served ++ l.waiting).Perm l.admitted ∧
    (l.served ++ l.waiting).filter (fun t => !t.highPrio)
      = l.admitted.filter (fun t => !t.highPrio) ∧
    (∀ p highPrio, 0 < w.owned p → ∃ q accepted,
      w.q.enqueuePacket p highPrio = .ok (q, accepted) ∧
      (accepted = false ↔ highPrio = false ∧ queueLength ≤ w.q.queue.length) ∧
      (accepted = false → q = w.q)) ∧
    ∀ p, w.q.refcount p = w.owned p + w.q.queue.count p := by
  have ho := orderly_of_run h
  refine ⟨ho.registered, ?_, ho.queued, ho.handed, ho.admitted_nodup, ho.fair.conserved,
    ho.fair.ordered, ?_, ho.counted⟩
  · intro hpending ready
    obtain ⟨q, hrun, -⟩ := ho.transmit hpending ready
    exact ⟨q, hrun⟩
  · intro p highPrio hp
    obtain ⟨q, accepted, hrun, -⟩ := ho.enqueue hp highPrio
    exact ⟨q, accepted, hrun, enqueuePacket_refused_iff (ho.refcount_pos hp) hrun⟩

/-- The guarantees after a beacon has overtaken a packet that waits. -/
theorem sendQueue_guarantees_overtaken : ∃ w l, Run w l ∧
    w.q.sent = [2] ∧ w.q.queue = [1] ∧ w.q.refcount 1 = 2 ∧
    w.q.pending = (if w.q.queue = [] then 0 else 1) := by
  have h1 : Run _ _ := .step (e := .create 1) .start rfl rfl
  have h2 : Run _ _ := .step (e := .create 2) h1 rfl rfl
  have h3 : Run _ _ := .step (e := .enqueue 1 false) h2 Nat.one_pos rfl
  have h4 : Run _ _ := .step (e := .enqueue 2 true) h3 Nat.one_pos rfl
  have h5 : Run _ _ := .step (e := .transmit true) h4 Nat.one_pos rfl
  exact ⟨_, _, h5, rfl, rfl, rfl, (sendQueue_guarantees h5).1⟩

end

end Awds.Proofs
