import Awds.Lib.Holdings
import Awds.PacketRefs
import Awds.Proofs.Routing.Authentication
import Awds.Proofs.Routing.LinkCheck
import Awds.Proofs.Routing.PathTrace
import Awds.Proofs.SendQueue

/-!
# `Awds.Proofs.PacketRefs`: the references to packets

Between two events a packet is kept by the send queue and by the table of neighbours only, and
its counter is to be the number of its places there (`Balanced`). `recv_data` has one reference
more while `recv_packet` runs. `Tidy` is the invariant: `Holdings` for both places, and what the
callback of the queue and the table need. There is one lemma for each operation.

A beacon that replaces another one in the table takes a reference and gives that of the other
one back (`Tidy.refreshNeigh`). An entry that is dropped is overwritten, and nobody has its
reference any more (`Tidy.removeOldNeigh`). Behind `checkLinkFailure` none is lost exactly if no
neighbour was silent for 32 intervals without a valid link (`Tidy.checkLinkFailure`).

The table here is that of `AwdsRouting` with the pointers: `recvBeacon_routing` and
`checkLinkFailure_routing`.
-/

set_option autoImplicit false

namespace Awds.Proofs

open Awds.Lib Awds.SendQueue Awds.AwdsRouting Awds.PacketWorld

/-! ### The invariant -/

/-- No packet has been used behind its last reference, and the counter of a packet is the number
of its places in the send queue and in the table of neighbours and of the references `held`. -/
structure Balanced (w : PacketWorld) (held : PacketPtr → Nat) : Prop where
  sound : w.misused = false
  counted : ∀ x, w.q.refcount x = w.q.queue.count x + w.lastBeacons.count x + held x

/-- The counters are right, the callback of the queue is registered as it should be, and each
neighbour has its pointer. -/
structure Tidy (w : PacketWorld) (held : PacketPtr → Nat) : Prop where
  sound : w.misused = false
  counted : Holdings w.q.refcount w.stored held
  registered : w.q.pending = due w.q.queue
  aligned : w.lastBeacons.length = w.routing.neighbors.length

section Refs

variable {w w' : PacketWorld} {held held' : PacketPtr → Nat} {p : PacketPtr}

/-- The invariant gives the balance: the places of a packet in the queue and in the table are those
where it is stored. -/
theorem Tidy.balanced (h : Tidy w held) : Balanced w held := by
  refine ⟨h.sound, fun x => ?_⟩
  rw [h.counted x]
  show (w.q.queue ++ w.lastBeacons).count x + held x = _
  rw [List.count_append]

/-- The counters of a state say what is held. -/
theorem Tidy.balanced_iff (h : Tidy w held) : Balanced w held' ↔ held' = held := by
  constructor
  · intro h'
    have hcounted : Holdings w.q.refcount w.stored held' := by
      intro x
      show _ = (w.q.queue ++ w.lastBeacons).count x + held' x
      rw [h'.counted x, List.count_append]
    exact hcounted.held_eq h.counted
  · rintro rfl
    exact h.balanced

/-- The data of the modules does not matter. -/
theorem Tidy.congr (h : Tidy w held) (hq : w'.q = w.q) (hmisused : w'.misused = w.misused)
    (hbeacons : w'.lastBeacons = w.lastBeacons)
    (hneigh : w'.routing.neighbors.length = w.routing.neighbors.length) : Tidy w' held where
  sound := hmisused.trans h.sound
  counted := by
    show Holdings w'.q.refcount (w'.q.queue ++ w'.lastBeacons) held
    rw [hq, hbeacons]
    exact h.counted
  registered := by
    rw [hq]
    exact h.registered
  aligned := by
    rw [hbeacons, hneigh]
    exact h.aligned

/-- The routing may be exchanged as long as the number of neighbours is the same, because each
neighbour has its pointer. -/
theorem Tidy.withRouting (h : Tidy w held) {r : AwdsRouting}
    (hr : r.neighbors.length = w.routing.neighbors.length) :
    Tidy { w with routing := r } held :=
  h.congr rfl rfl rfl hr

/-! #### The operations -/

/-- A packet that is created has one reference, which its creator holds. -/
theorem Tidy.newPacket (h : Tidy w held) (hfree : w.q.refcount p = 0) :
    Tidy (w.newPacket p) (held + Pi.single p 1) where
  sound := h.sound
  counted := h.counted.create hfree
  registered := h.registered
  aligned := h.aligned

/-- The state in which the packet `p` has `n` references. -/
def withCount (w : PacketWorld) (p : PacketPtr) (n : Nat) : PacketWorld :=
  { w with q := { w.q with refcount := Function.update w.q.refcount p n } }

/-- A reference to a packet in use is one more in its counter. -/
theorem ref_eq (hp : 0 < w.q.refcount p) : w.ref p = withCount w p (w.q.refcount p + 1) := by
  unfold PacketWorld.ref
  rw [ref_run hp]
  rfl

/-- A reference that is dropped is one less. -/
theorem unref_eq (hp : 0 < w.q.refcount p) : w.unref p = withCount w p (w.q.refcount p - 1) := by
  unfold PacketWorld.unref
  rw [unref_run hp]
  rfl

/-- Whoever takes a reference holds it. -/
theorem Tidy.ref (h : Tidy w held) (hp : 0 < w.q.refcount p) :
    Tidy (w.ref p) (held + Pi.single p 1) := by
  rw [ref_eq hp]
  exact
    { sound := h.sound
      counted := h.counted.take
      registered := h.registered
      aligned := h.aligned }

/-- A packet that somebody holds is in use. -/
theorem Tidy.refcount_pos (h : Tidy w held) (hp : 0 < held p) : 0 < w.q.refcount p :=
  h.counted.pos_of_held hp

/-- Who holds a packet once more holds it. -/
theorem single_pos (held : PacketPtr → Nat) (p : PacketPtr) :
    0 < (held + Pi.single p 1 : PacketPtr → Nat) p := by
  show 0 < held p + (Pi.single p 1 : PacketPtr → Nat) p
  rw [Pi.single_eq_same]
  omega

/-- Whoever drops a reference has held it. -/
theorem Tidy.unref (h : Tidy w (held + Pi.single p 1)) : Tidy (w.unref p) held := by
  rw [unref_eq (h.refcount_pos (single_pos held p))]
  exact
    { sound := h.sound
      counted := h.counted.drop
      registered := h.registered
      aligned := h.aligned }

/-- The queue takes a reference of its own to a packet that it accepts. -/
theorem Tidy.send (h : Tidy w held) (hp : 0 < w.q.refcount p) (highPrio : Bool) :
    Tidy (w.send p highPrio) held := by
  unfold PacketWorld.send
  cases hrun : w.q.enqueuePacket p highPrio with
  -- The queue never fails for a live packet.
  | error e =>
    rw [enqueuePacket_run hp] at hrun
    split at hrun
    · cases hrun
    split at hrun <;> cases hrun
  | ok out =>
    obtain ⟨q, accepted⟩ := out
    -- The packet is refused, or it enters the queue at one place.
    rcases enqueuePacket_cases hp hrun with ⟨-, rfl⟩ | ⟨-, front, back, hqueue, rfl⟩
    · exact h
    · show Tidy { w with q := inserted w.q front p back } held
      refine
        { sound := h.sound
          counted := ?_
          registered := inserted_pending h.registered hqueue
          aligned := h.aligned }
      have hcount : (inserted w.q front p back).refcount
          = Function.update w.q.refcount p (w.q.refcount p + 1) := registerFirst_refcount
      have hplaces : (inserted w.q front p back).queue = front ++ p :: back :=
        registerFirst_queue
      show Holdings (inserted w.q front p back).refcount
        ((inserted w.q front p back).queue ++ w.lastBeacons) held
      -- One reference is taken, and one more packet is stored.
      rw [hcount, hplaces]
      refine h.counted.take.store.perm ?_
      show (p :: (w.q.queue ++ w.lastBeacons)).Perm _
      rw [hqueue]
      exact List.perm_middle.symm.append_right w.lastBeacons

/-- A packet that may be sent or not: the counters are right in both cases. -/
theorem Tidy.sendIf (h : Tidy w held) (hp : 0 < w.q.refcount p) (sent : Option BasePacket) :
    Tidy (w.sendIf p sent) held := by
  cases sent with
  | none => exact h
  | some c => exact h.send hp false

/-- A packet that is created, sent or not, and dropped by its creator. -/
theorem Tidy.sendNew (h : Tidy w held) (hfree : w.q.refcount p = 0)
    (sent : Option BasePacket) : Tidy (((w.newPacket p).sendIf p sent).unref p) held := by
  have hnew := h.newPacket hfree
  exact (hnew.sendIf (hnew.refcount_pos (single_pos held p)) sent).unref

/-- The callback of the queue gives back the reference of the queue. -/
theorem Tidy.transmit (h : Tidy w held) (hpending : 0 < w.q.pending) (ready : Bool) :
    Tidy (w.withQueue (SendQueue.xmitCb { w.q with pending := w.q.pending - 1 } ready)) held := by
  have hreg := h.registered
  -- An empty queue registers no callback.
  cases hq : w.q.queue with
  | nil =>
    rw [hreg, hq] at hpending
    exact absurd hpending (by decide)
  | cons p rest =>
    have hone : w.q.pending = 1 := by
      rw [hreg, hq]
      rfl
    -- The first packet is stored, so it is alive.
    have hp : 0 < w.q.refcount p := by
      refine h.counted.pos_of_stored ?_
      show p ∈ w.q.queue ++ w.lastBeacons
      rw [hq]
      exact List.mem_cons_self
    rw [xmitCb_run (s := { w.q with pending := w.q.pending - 1 }) hq hp ready]
    -- The device is busy: everything stays.
    cases ready with
    | false =>
      exact
        { sound := h.sound
          counted := h.counted
          registered := by
            show w.q.pending - 1 + 1 = due w.q.queue
            rw [hone, hq]
            rfl
          aligned := h.aligned }
    -- The packet is sent, and its reference goes with it.
    | true =>
      have hcounted := h.counted
      unfold stored at hcounted
      rw [hq] at hcounted
      exact
        { sound := h.sound
          counted := hcounted.unstore.drop
          registered := by
            show w.q.pending - 1 + due rest = due rest
            rw [hone, Nat.sub_self, Nat.zero_add]
          aligned := h.aligned }

/-- Another table of neighbours. -/
theorem Tidy.withTable (h : Tidy w held) {r : AwdsRouting} {bs : List PacketPtr}
    (hcount : Holdings w.q.refcount (w.q.queue ++ bs) held')
    (hlen : bs.length = r.neighbors.length) :
    Tidy { w with routing := r, lastBeacons := bs } held' where
  sound := h.sound
  counted := hcount
  registered := h.registered
  aligned := hlen

end Refs

/-! ### The table of neighbours -/

section Table

variable {w w' : PacketWorld} {held : PacketPtr → Nat} {p last : PacketPtr} {t now : AbsTime}
  {c : BasePacket} {r : AwdsRouting} {bs : List PacketPtr}

/-- Taking a reference does not read the table of neighbours. -/
theorem ref_table (w : PacketWorld) (r : AwdsRouting) (bs : List PacketPtr) (p : PacketPtr) :
    { w with routing := r, lastBeacons := bs }.ref p
      = { w.ref p with routing := r, lastBeacons := bs } := by
  unfold PacketWorld.ref
  show PacketWorld.withQueue _ (w.q.ref p) = _
  cases w.q.ref p <;> rfl

/-- Nor does dropping one. -/
theorem unref_table (w : PacketWorld) (r : AwdsRouting) (bs : List PacketPtr) (p : PacketPtr) :
    { w with routing := r, lastBeacons := bs }.unref p
      = { w.unref p with routing := r, lastBeacons := bs } := by
  unfold PacketWorld.unref
  show PacketWorld.withQueue _ (w.q.unref p) = _
  cases w.q.unref p <;> rfl

/-- A reference that is taken and dropped. -/
theorem ref_unref (hp : 0 < w.q.refcount p) : (w.ref p).unref p = w := by
  have hone : (withCount w p (w.q.refcount p + 1)).q.refcount p = w.q.refcount p + 1 :=
    Function.update_self ..
  rw [ref_eq hp, unref_eq (by rw [hone]; omega), hone]
  have hcount : Function.update (Function.update w.q.refcount p (w.q.refcount p + 1)) p
      (w.q.refcount p + 1 - 1) = w.q.refcount := by
    rw [Function.update_idem, Nat.add_sub_cancel, Function.update_eq_self]
  show { w with q := { w.q with refcount := Function.update (Function.update _ _ _) _ _ } } = w
  rw [hcount]

/-- The table takes a reference to a beacon. -/
theorem Tidy.storeBeacon (h : Tidy w held) (hp : 0 < w.q.refcount p)
    (hbs : bs.Perm (p :: w.lastBeacons)) (hlen : bs.length = r.neighbors.length) :
    Tidy { w.ref p with routing := r, lastBeacons := bs } held := by
  refine (h.ref hp).withTable ((h.ref hp).counted.store.perm ?_) hlen
  rw [ref_eq hp]
  show (p :: (w.q.queue ++ w.lastBeacons)).Perm (w.q.queue ++ bs)
  exact List.perm_middle.symm.trans (hbs.symm.append_left w.q.queue)

/-- The entry `i` of the table gives its reference back. -/
theorem Tidy.dropBeacon (h : Tidy w held) {i : Nat} (hi : w.lastBeacons[i]? = some last)
    (hlen : (w.lastBeacons.eraseIdx i).length = r.neighbors.length) :
    Tidy { w.unref last with routing := r, lastBeacons := w.lastBeacons.eraseIdx i } held := by
  obtain ⟨hlt, hlast⟩ := List.getElem?_eq_some_iff.mp hi
  rw [← unref_table]
  refine Tidy.unref (h.withTable ?_ hlen)
  have hperm : (last :: w.lastBeacons.eraseIdx i).Perm w.lastBeacons := by
    rw [← hlast]
    exact List.getElem_cons_eraseIdx_perm hlt
  refine Holdings.unstore (h.counted.perm ?_)
  show (w.q.queue ++ w.lastBeacons).Perm (last :: (w.q.queue ++ w.lastBeacons.eraseIdx i))
  exact (hperm.symm.append_left w.q.queue).trans List.perm_middle

/-- A beacon takes the place of the last one of its neighbour. -/
theorem Tidy.replaceBeacon (h : Tidy w held) (hp : 0 < held p) {i : Nat}
    (hi : w.lastBeacons[i]? = some last) (hlen : w.lastBeacons.length = r.neighbors.length) :
    Tidy { (w.unref last).ref p with routing := r, lastBeacons := w.lastBeacons.set i p } held := by
  obtain ⟨hlt, -⟩ := List.getElem?_eq_some_iff.mp hi
  -- the table in between, with one neighbour less
  let r0 : AwdsRouting := { w.routing with neighbors := w.routing.neighbors.eraseIdx i }
  have hlen0 : (w.lastBeacons.eraseIdx i).length = r0.neighbors.length := by
    show _ = (w.routing.neighbors.eraseIdx i).length
    rw [List.length_eraseIdx_of_lt hlt, List.length_eraseIdx_of_lt (h.aligned ▸ hlt), h.aligned]
  have hdropped := h.dropBeacon hi hlen0
  have hstored := hdropped.storeBeacon (hdropped.refcount_pos hp)
    (List.set_perm_cons_eraseIdx hlt p) (r := r) (by rw [List.length_set, hlen])
  rw [ref_table] at hstored
  exact hstored

/-- A beacon of a neighbour keeps the number of neighbours. -/
theorem Updates.length {r r' : AwdsRouting} {i : Nat} {nd : NodeDescr} {b : BasePacket}
    (h : Updates r r' t c i nd b) : r'.neighbors.length = r.neighbors.length := by
  obtain ⟨hop, -, rfl⟩ := h.result
  rw [armLinkCheck_neighbors, List.length_set]

/-- `refreshNeigh` keeps the counters right: a beacon that is stored has a further reference, and
the one it replaces has one less. -/
theorem Tidy.refreshNeigh (h : Tidy w held) (hp : 0 < held p)
    (hrun : w.refreshNeigh t p c = .ok w') : Tidy w' held := by
  obtain ⟨⟨r, isNew⟩, hrefresh, hrun⟩ := bind_eq_ok.mp hrun
  dsimp only at hrun
  obtain ⟨-, hcases⟩ := refreshNeigh_cases hrefresh
  rcases hcases with ⟨hneg, -, rfl, rfl⟩ | ⟨hneg, -, rfl, rfl⟩ | ⟨hpos, -, rfl, nd, last, hup⟩
  · -- the table is full
    -- The station cannot be taken in, and the packet stays the handler's.
    rw [if_neg Bool.false_ne_true, if_pos hneg] at hrun
    cases hrun
    exact h.withRouting rfl
  · -- A new neighbour: the packet becomes its last beacon, at the same place in both lists.
    rw [if_pos rfl] at hrun
    cases hrun
    generalize hi : (-w.routing.findNeigh (SrcPacket.getSrc c) - 1).toNat = i
    obtain ⟨nd, -, -, -, -, hneighbors⟩ := addNeigh_neighbors w.routing c t i
    generalize w.routing.addNeigh c t i = r at hneighbors
    have hpc : 0 < { w with routing := r }.q.refcount p := h.refcount_pos hp
    have hlen : (w.lastBeacons.take i ++ p :: w.lastBeacons.drop i).length
        = r.neighbors.length := by
      rw [hneighbors]
      simp only [List.length_append, List.length_cons, List.length_take, List.length_drop,
        h.aligned]
    have hperm : (w.lastBeacons.take i ++ p :: w.lastBeacons.drop i).Perm
        (p :: w.lastBeacons) := by
      have hmiddle : (w.lastBeacons.take i ++ p :: w.lastBeacons.drop i).Perm
          (p :: (w.lastBeacons.take i ++ w.lastBeacons.drop i)) := List.perm_middle
      rwa [List.take_append_drop] at hmiddle
    have hstored := h.storeBeacon (r := r) (h.refcount_pos hp) hperm hlen
    have htable : { w with routing := r }.ref p
        = { w.ref p with routing := r, lastBeacons := w.lastBeacons } := ref_table ..
    rw [ref_unref hpc, htable]
    exact hstored
  · -- A known one: the packet takes the place of the old beacon, which loses its reference.
    rw [if_neg Bool.false_ne_true, if_neg (not_lt.mpr hpos)] at hrun
    generalize (w.routing.findNeigh (SrcPacket.getSrc c)).toNat = i at hup hrun
    split at hrun
    · cases hrun
    rename_i last hlast
    cases hrun
    have hstored := h.replaceBeacon (r := r) hp hlast (h.aligned.trans hup.length.symm)
    have htable : ({ w with routing := r }.unref last).ref p
        = { (w.unref last).ref p with routing := r, lastBeacons := w.lastBeacons } := by
      rw [← ref_table, ← unref_table]
    rw [htable]
    exact hstored

/-- The handler of beacons either ignores the packet or enters it, and then the table holds it. -/
theorem Tidy.recvBeacon {host : Host} {clock : Clock} (h : Tidy w held) (hp : 0 < held p)
    (hrun : w.recvBeacon host clock p c = .ok w') : Tidy w' held := by
  unfold PacketWorld.recvBeacon at hrun
  dsimp only at hrun
  split at hrun
  · exact h.refreshNeigh hp hrun
  · obtain ⟨len, -, hrun⟩ := bind_eq_ok.mp hrun
    split at hrun
    · cases hrun
      exact h.withRouting rfl
    · refine Tidy.refreshNeigh ?_ hp hrun
      exact h.withRouting rfl

/-! #### The entries that are dropped -/

/-- The pointers that `removeOldNeigh` forgets. -/
def forgotten (w : PacketWorld) (now : AbsTime) : List PacketPtr :=
  ((w.routing.neighbors.zip w.lastBeacons).filter fun e => e.1.isExpired now).map Prod.snd

/-- The references of the entries that are dropped have no place any more. -/
theorem Tidy.removeOldNeigh (h : Tidy w held) (now : AbsTime) :
    Tidy (w.removeOldNeigh now) (held + fun x => (forgotten w now).count x) := by
  let es := w.routing.neighbors.zip w.lastBeacons
  let kept := (es.filter fun e => !e.1.isExpired now).map Prod.snd
  have hsnd : es.map Prod.snd = w.lastBeacons := List.map_snd_zip h.aligned.le
  have hfst : es.map Prod.fst = w.routing.neighbors := List.map_fst_zip h.aligned.ge
  -- every pointer is kept or forgotten
  have hsplit : w.lastBeacons.Perm (forgotten w now ++ kept) := by
    have hperm := (List.filter_append_perm (fun e => e.1.isExpired now) es).map Prod.snd
    rw [List.map_append, hsnd] at hperm
    exact hperm.symm
  have hlen : kept.length = (w.routing.removeOldNeigh now).neighbors.length := by
    rw [removeOldNeigh_neighbors, ← hfst, List.filter_map, List.length_map, List.length_map]
    rfl
  refine h.withTable (Holdings.unstoreAll (h.counted.perm ?_)) hlen
  refine (hsplit.append_left w.q.queue).trans ?_
  rw [← List.append_assoc, ← List.append_assoc]
  exact List.perm_append_comm.append_right kept

/-- Nothing is forgotten exactly if no entry is expired. -/
theorem forgotten_eq_nil_iff (hlen : w.lastBeacons.length = w.routing.neighbors.length) :
    forgotten w now = [] ↔ ∀ nd ∈ w.routing.neighbors, nd.isExpired now = false := by
  have hfst : (w.routing.neighbors.zip w.lastBeacons).map Prod.fst = w.routing.neighbors :=
    List.map_fst_zip hlen.ge
  unfold forgotten
  rw [List.map_eq_nil_iff, List.filter_eq_nil_iff]
  constructor
  · intro hnone nd hnd
    rw [← hfst] at hnd
    obtain ⟨e, he, rfl⟩ := List.mem_map.mp hnd
    simpa using hnone e he
  · intro hnone e he
    rw [hnone e.1 (hfst ▸ List.mem_map_of_mem he)]
    exact Bool.false_ne_true

/-! #### The link-failure job -/

/-- A neighbour is not active, or its link is no longer valid, and it has been silent for 32
intervals. -/
def Silent (now : AbsTime) (nd : NodeDescr) : Prop :=
  (nd.active = true → nd.linkValidity ≤ now) ∧ nd.lastBeaconTime + nd.beaconInterval * 32 < now

/-- A neighbour has expired if it is not active and has been silent for 32 of its intervals. -/
theorem isExpired_iff (nd : NodeDescr) : nd.isExpired now = true ↔
    nd.active = false ∧ nd.lastBeaconTime + nd.beaconInterval * 32 < now := by
  simp [NodeDescr.isExpired]

/-- A neighbour of the loop that fails no assertion is expired behind it exactly if it was
silent. -/
theorem updated_isExpired_iff {nd nd' : NodeDescr} {changed changed' : Bool}
    {m m' : Option AbsTime} (hnd : (if changed then (nd, true) else nd.updateInactive now)
      = (nd', changed')) (hmin : minLinkValidity now nd' m = .ok m') :
    nd'.isExpired now = true ↔ Silent now nd := by
  -- The search for the earliest validity only passes links that are still valid.
  have hvalid : nd'.active = true → now < nd'.linkValidity := by
    intro hactive
    unfold minLinkValidity at hmin
    rw [if_pos hactive] at hmin
    by_contra hlate
    rw [if_pos hlate] at hmin
    cases hmin
  rw [isExpired_iff]
  unfold Silent
  cases hchanged : changed with
  -- An earlier change leaves this entry as it is, and an active one has a link that holds on.
  | true =>
    rw [hchanged, if_pos rfl] at hnd
    cases hnd
    constructor
    · rintro ⟨hinactive, hsilent⟩
      exact ⟨fun hactive => (by rw [hinactive] at hactive; cases hactive), hsilent⟩
    · rintro ⟨hlate, hsilent⟩
      refine ⟨Bool.eq_false_iff.mpr fun hactive => ?_, hsilent⟩
      exact absurd (hlate hactive) (not_le.mpr (hvalid hactive))
  -- Otherwise it is updated here and deactivated if its link has run out.
  | false =>
    rw [hchanged, if_neg Bool.false_ne_true] at hnd
    unfold NodeDescr.updateInactive at hnd
    dsimp only at hnd
    split at hnd
    · rename_i hlate
      rw [Bool.and_eq_true, decide_eq_true_iff] at hlate
      cases hnd
      constructor
      · rintro ⟨-, hsilent⟩
        exact ⟨fun _ => hlate.2, hsilent⟩
      · rintro ⟨-, hsilent⟩
        exact ⟨rfl, hsilent⟩
    · cases hnd
      constructor
      · rintro ⟨hinactive, hsilent⟩
        exact ⟨fun hactive => (by rw [hinactive] at hactive; cases hactive), hsilent⟩
      · rintro ⟨hlate, hsilent⟩
        refine ⟨Bool.eq_false_iff.mpr fun hactive => ?_, hsilent⟩
        exact absurd (hlate hactive) (not_le.mpr (hvalid hactive))

/-- The loop keeps the number of neighbours, and the silent ones are expired behind it. -/
theorem checkLinks_expired {nds nds' : List NodeDescr} {changed changed' : Bool}
    {m m' : Option AbsTime} (h : checkLinks now nds changed m = .ok (nds', changed', m')) :
    nds'.length = nds.length ∧
      ((∀ nd ∈ nds', nd.isExpired now = false) ↔ ∀ nd ∈ nds, ¬Silent now nd) := by
  induction nds generalizing changed m nds' with
  | nil =>
    cases h
    simp
  | cons nd nds ih =>
    rw [checkLinks] at h
    generalize hupdated : (if changed then (nd, true) else nd.updateInactive now) = updated at h
    obtain ⟨nd1, changed1⟩ := updated
    obtain ⟨m1, hmin, h⟩ := bind_eq_ok.mp h
    obtain ⟨⟨nds1, changed2, m2⟩, hrest, h⟩ := bind_eq_ok.mp h
    cases h
    obtain ⟨hlen, hiff⟩ := ih hrest
    have hone := updated_isExpired_iff hupdated hmin
    refine ⟨by rw [List.length_cons, hlen, List.length_cons], ?_⟩
    rw [List.forall_mem_cons, List.forall_mem_cons, hiff, ← hone, Bool.not_eq_true]

/-- A topo packet is created, sent if there is one, and dropped. -/
theorem Tidy.sendTopo {host : Host} {clock : Clock} (h : Tidy w held)
    (hfree : w.q.refcount p = 0) (hrun : w.sendTopo host clock p = .ok w') : Tidy w' held := by
  obtain ⟨⟨r, sent⟩, htopo, hrun⟩ := bind_eq_ok.mp hrun
  cases hrun
  have hsame := (sendTopo_sameNeighbors htopo).neighbors
  exact Tidy.sendNew (h.withRouting (congrArg List.length hsame)) hfree sent

/-- Behind the job the references of the entries it has dropped are in nobody's hands. -/
theorem Tidy.checkLinkFailure {host : Host} {clock : Clock} (h : Tidy w held)
    (hfree : w.q.refcount p = 0) (hrun : w.checkLinkFailure host clock p = .ok w') :
    ∃ lost : List PacketPtr, Tidy w' (held + fun x => lost.count x) ∧
      (lost = [] ↔ ∀ nd ∈ w.routing.neighbors, ¬Silent clock.lastEventTime nd) := by
  obtain ⟨⟨nds, changed, m⟩, hlinks, hrun⟩ := bind_eq_ok.mp hrun
  dsimp only at hrun
  obtain ⟨hlen, hsilent⟩ := checkLinks_expired hlinks
  generalize hw1 : ({ w with routing := { w.routing with
    neighbors := nds, linkFailBlocker := m } } : PacketWorld) = w1 at hrun
  have hneigh : w1.routing.neighbors = nds := by rw [← hw1]
  have h1 : Tidy w1 held := by
    rw [← hw1]
    exact h.withRouting hlen
  have hq : w1.q = w.q := by rw [← hw1]
  refine ⟨forgotten w1 clock.lastEventTime, ?_, ?_⟩
  · have hremoved := h1.removeOldNeigh clock.lastEventTime
    split at hrun
    · exact hremoved.sendTopo (by rw [← hfree, ← hq]; rfl) hrun
    · cases hrun
      exact hremoved
  · rw [forgotten_eq_nil_iff h1.aligned, hneigh]
    exact hsilent

/-! #### The data of the routing -/

/-- The queue of packets is no part of the routing. -/
@[simp] theorem withQueue_routing (w : PacketWorld) (out : Result SendQueue) :
    (w.withQueue out).routing = w.routing := by
  cases out <;> rfl

@[simp] theorem ref_routing (w : PacketWorld) (p : PacketPtr) :
    (w.ref p).routing = w.routing := withQueue_routing ..

@[simp] theorem unref_routing (w : PacketWorld) (p : PacketPtr) :
    (w.unref p).routing = w.routing := withQueue_routing ..

@[simp] theorem sendIf_routing (w : PacketWorld) (p : PacketPtr) (sent : Option BasePacket) :
    (w.sendIf p sent).routing = w.routing := by
  cases sent with
  | none => rfl
  | some c => exact withQueue_routing ..

/-- The references go with the table of `AwdsRouting.refreshNeigh`. -/
theorem refreshNeigh_routing (h : w.refreshNeigh t p c = .ok w') :
    ∃ isNew, w.routing.refreshNeigh t c = .ok (w'.routing, isNew) := by
  obtain ⟨⟨r, isNew⟩, hrefresh, h⟩ := bind_eq_ok.mp h
  refine ⟨isNew, ?_⟩
  rw [hrefresh]
  dsimp only at h
  split at h
  · cases h
    simp
  split at h
  · cases h
    rfl
  split at h
  · cases h
  · cases h
    simp

/-- `recvBeacon` does to the routing what `AwdsRouting.recvBeacon` does. -/
theorem recvBeacon_routing {host : Host} {clock : Clock}
    (h : w.recvBeacon host clock p c = .ok w') :
    w.routing.recvBeacon host clock c = .ok w'.routing := by
  unfold PacketWorld.recvBeacon at h
  unfold AwdsRouting.recvBeacon
  dsimp only at h ⊢
  cases hunit : w.routing.cryptoUnit with
  -- Without a key the beacon is taken at once.
  | none =>
    rw [hunit] at h
    obtain ⟨isNew, hrefresh⟩ := refreshNeigh_routing h
    dsimp only
    rw [hrefresh]
    rfl
  -- With one it is verified before that.
  | some cu =>
    rw [hunit] at h
    obtain ⟨len, hlen, h⟩ := bind_eq_ok.mp h
    dsimp only
    rw [hlen, except_bind_ok]
    split at h
    · rename_i hbad
      cases h
      rw [if_pos hbad]
    · rename_i hgood
      obtain ⟨isNew, hrefresh⟩ := refreshNeigh_routing h
      rw [if_neg hgood]
      dsimp only at hrefresh
      rw [hrefresh]
      rfl

/-- The packets apart, `sendTopo` does what the routing says. -/
theorem sendTopo_routing {host : Host} {clock : Clock}
    (h : w.sendTopo host clock p = .ok w') :
    ∃ sent, w.routing.sendTopo host clock = .ok (w'.routing, sent) := by
  obtain ⟨⟨r, sent⟩, htopo, h⟩ := bind_eq_ok.mp h
  cases h
  refine ⟨sent, htopo.trans ?_⟩
  simp [newPacket]

/-- `checkLinkFailure` does to the routing what `AwdsRouting.checkLinkFailure` does. -/
theorem checkLinkFailure_routing {host : Host} {clock : Clock}
    (h : w.checkLinkFailure host clock p = .ok w') :
    ∃ sent, w.routing.checkLinkFailure host clock = .ok (w'.routing, sent) := by
  obtain ⟨⟨nds, changed, m⟩, hlinks, h⟩ := bind_eq_ok.mp h
  unfold AwdsRouting.checkLinkFailure checkNeighbors
  rw [hlinks]
  dsimp only at h ⊢
  simp only [except_bind_ok]
  split at h
  · rename_i hchanged
    obtain ⟨sent, htopo⟩ := sendTopo_routing h
    refine ⟨sent, ?_⟩
    rw [if_pos hchanged]
    exact htopo
  · rename_i hsame
    cases h
    refine ⟨none, ?_⟩
    rw [if_neg hsame]
    rfl

end Table

end Awds.Proofs
