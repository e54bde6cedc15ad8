import Awds.Kernel.Sockets
import Awds.Proofs.Topology.Links

/-!
# `Awds.Proofs.Kernel.Instances`: the array of instances

`awds_instances` has a separate top index. `__awds_add_instance` writes above the top, and
`__awds_del_instance` empties the slot of an instance wherever it is and lowers the top by
one. The lookups go from slot 0 to the top and dereference every slot on their way.

`SlotsOk m bound` is what they rely on: the slots up to the top hold the instances of the
bound sockets, each once, and the others are empty. A `bind` keeps it. A `release` keeps it
if it is that of the socket in the top slot; any other leaves an empty slot behind
(`SlotsOk.release_below_top`). The operations on interfaces do not matter here. They change the
locks of instances, and `SameSlots` is what they keep.
-/

set_option autoImplicit false

namespace Awds.Proofs

open Awds.Lib Awds.Kernel Awds.Kernel.AwdsModule

/-! ### What the operations on interfaces keep -/

/-- The array, its top, the mutex and the sockets of the instances are the same. -/
structure SameSlots (m m' : AwdsModule) : Prop where
  slots : m'.awdsInstances = m.awdsInstances
  top : m'.awdsInstanceIndex = m.awdsInstanceIndex
  mutex : m'.mutex = m.mutex
  sock : ∀ p, (m'.instances p).map AwdsInstance.sock = (m.instances p).map AwdsInstance.sock
  nextPtr : m.nextPtr ≤ m'.nextPtr

namespace SameSlots

variable {m m' m'' : AwdsModule}

/-- An operation that does nothing keeps the slots. -/
theorem refl (m : AwdsModule) : SameSlots m m := ⟨rfl, rfl, rfl, fun _ => rfl, Nat.le_refl _⟩

/-- The slots are kept through a sequence of operations, and pointers are only given out. -/
theorem trans (h : SameSlots m m') (h' : SameSlots m' m'') : SameSlots m m'' where
  slots := h'.slots.trans h.slots
  top := h'.top.trans h.top
  mutex := h'.mutex.trans h.mutex
  sock p := (h'.sock p).trans (h.sock p)
  nextPtr := h.nextPtr.trans h'.nextPtr

/-- An instance is written without a change of its socket. -/
theorem setInst {p : InstancePtr} {i i' : AwdsInstance} (hi : m.instances p = some i)
    (hsock : i'.sock = i.sock) : SameSlots m (m.setInst p (some i')) where
  slots := rfl
  top := rfl
  mutex := rfl
  nextPtr := Nat.le_refl _
  sock q := by
    show (Function.update m.instances p (some i') q).map _ = _
    by_cases hq : q = p
    · subst hq
      rw [Function.update_self, hi, Option.map_some, Option.map_some, hsock]
    · rw [Function.update_of_ne hq]

end SameSlots

section
variable {m m' : AwdsModule} {p : InstancePtr} {ret : Int}

/-- A dereference succeeds exactly for a pointer to an instance that was not freed. -/
theorem inst_eq_ok {i : AwdsInstance} : m.inst p = .ok i ↔ m.instances p = some i := by
  unfold inst
  cases m.instances p <;> simp

/-- The lock of an instance is taken exactly if the instance is there and nobody holds it. The flag
is the only change. -/
theorem lockInst_eq_ok : m.lockInst p = .ok m' ↔ ∃ i, m.instances p = some i ∧
    i.locked = false ∧ m' = m.setInst p (some { i with locked := true }) := by
  unfold lockInst
  rw [bind_eq_ok]
  simp only [inst_eq_ok]
  constructor
  · rintro ⟨i, hi, h⟩
    split at h
    · cases h
    · rename_i hfree
      exact ⟨i, hi, by simpa using hfree, (Except.ok.inj h).symm⟩
  · rintro ⟨i, hi, hfree, rfl⟩
    exact ⟨i, hi, by rw [if_neg (by simp [hfree])]⟩

/-- The lock of an instance is given back exactly if it is held. The flag is the only change. -/
theorem unlockInst_eq_ok : m.unlockInst p = .ok m' ↔ ∃ i, m.instances p = some i ∧
    i.locked = true ∧ m' = m.setInst p (some { i with locked := false }) := by
  unfold unlockInst
  rw [bind_eq_ok]
  simp only [inst_eq_ok]
  constructor
  · rintro ⟨i, hi, h⟩
    split at h
    · rename_i hheld
      exact ⟨i, hi, hheld, (Except.ok.inj h).symm⟩
    · cases h
  · rintro ⟨i, hi, hheld, rfl⟩
    exact ⟨i, hi, by rw [if_pos hheld]⟩

/-- Taking a lock keeps the slots, because the socket of the instance stays. -/
theorem lockInst_sameSlots (h : m.lockInst p = .ok m') : SameSlots m m' := by
  obtain ⟨i, hi, -, rfl⟩ := lockInst_eq_ok.mp h
  exact .setInst hi rfl

/-- Giving a lock back keeps the slots for the same reason. -/
theorem unlockInst_sameSlots (h : m.unlockInst p = .ok m') : SameSlots m m' := by
  obtain ⟨i, hi, -, rfl⟩ := unlockInst_eq_ok.mp h
  exact .setInst hi rfl

/-- The lookup takes the lock of the instance and gives it back, and changes nothing in between. -/
theorem awdsFindInterface_sameSlots {dev : DevPtr} {found : Option InterfacePtr}
    (h : m.awdsFindInterface p dev = .ok (m', found)) : SameSlots m m' := by
  obtain ⟨m1, h1, h⟩ := bind_eq_ok.mp h
  obtain ⟨f, -, h⟩ := bind_eq_ok.mp h
  obtain ⟨m2, h2, h⟩ := bind_eq_ok.mp h
  cases h
  exact (lockInst_sameSlots h1).trans (unlockInst_sameSlots h2)

/-- The memory of an interface is no part of the slots. -/
theorem setIface_sameSlots (m : AwdsModule) (q : InterfacePtr) (i : Option AwdsInterface) :
    SameSlots m (m.setIface q i) := ⟨rfl, rfl, rfl, fun _ => rfl, Nat.le_refl _⟩

/-- The memory of a socket is no part of the slots. -/
theorem setSock_sameSlots (m : AwdsModule) (sk : SockPtr) (s : AwdsSock) :
    SameSlots m (m.setSock sk s) := ⟨rfl, rfl, rfl, fun _ => rfl, Nat.le_refl _⟩

/-- Counting an interface writes to the interface and to the socket, and to no instance. -/
theorem countInterface_sameSlots {sk : SockPtr} {new : InterfacePtr} {n : Nat}
    (h : m.countInterface sk new n = .ok (m', ret)) : SameSlots m m' := by
  obtain ⟨i, -, h⟩ := bind_eq_ok.mp h
  cases h
  exact (setIface_sameSlots _ _ _).trans (setSock_sameSlots _ _ _)

/-- A new interface goes behind the last one of the socket, or it is the first one. In both cases
interfaces and the socket are written. All other ways out of the function write nothing. -/
theorem awdsAddInterfaceLocked_sameSlots {new : InterfacePtr}
    (h : m.awdsAddInterfaceLocked p new = .ok (m', ret)) : SameSlots m m' := by
  obtain ⟨i, -, h⟩ := bind_eq_ok.mp h
  split at h
  · cases h
    exact .refl m
  · obtain ⟨sk, -, h⟩ := bind_eq_ok.mp h
    split at h
    · exact (setSock_sameSlots _ _ _).trans (countInterface_sameSlots h)
    · split at h
      · cases h
        exact .refl m
      · obtain ⟨last, -, h⟩ := bind_eq_ok.mp h
        split at h
        · cases h
          exact .refl m
        · obtain ⟨l, -, h⟩ := bind_eq_ok.mp h
          obtain ⟨j, -, h⟩ := bind_eq_ok.mp h
          exact (setIface_sameSlots _ _ _).trans
            ((setIface_sameSlots _ _ _).trans (countInterface_sameSlots h))

/-- The same under the lock of the instance. -/
theorem awdsAddInterface_sameSlots {new : InterfacePtr}
    (h : m.awdsAddInterface p new = .ok (m', ret)) : SameSlots m m' := by
  obtain ⟨m1, h1, h⟩ := bind_eq_ok.mp h
  obtain ⟨⟨m2, r⟩, h2, h⟩ := bind_eq_ok.mp h
  obtain ⟨m3, h3, h⟩ := bind_eq_ok.mp h
  cases h
  exact (lockInst_sameSlots h1).trans
    ((awdsAddInterfaceLocked_sameSlots h2).trans (unlockInst_sameSlots h3))

/-- The interface behind the one that is removed gets another predecessor, if there is one. -/
theorem skipNext_sameSlots {i : AwdsInterface} (h : m.skipNext i = .ok m') :
    SameSlots m m' := by
  unfold skipNext at h
  split at h
  · cases h
    exact .refl m
  · obtain ⟨j, -, h⟩ := bind_eq_ok.mp h
    cases h
    exact setIface_sameSlots _ _ _

/-- The interface in front of it gets another successor, if there is one. -/
theorem skipPrev_sameSlots {i : AwdsInterface} (h : m.skipPrev i = .ok m') :
    SameSlots m m' := by
  unfold skipPrev at h
  split at h
  · cases h
    exact .refl m
  · obtain ⟨j, -, h⟩ := bind_eq_ok.mp h
    cases h
    exact setIface_sameSlots _ _ _

/-- The removal of an interface writes to its two neighbours and to the socket. -/
theorem awdsDelInterfaceLocked_sameSlots {ptr : InterfacePtr}
    (h : m.awdsDelInterfaceLocked p ptr = .ok (m', ret)) : SameSlots m m' := by
  obtain ⟨inst, -, h⟩ := bind_eq_ok.mp h
  split at h
  · cases h
    exact .refl m
  · obtain ⟨i, -, h⟩ := bind_eq_ok.mp h
    obtain ⟨m1, h1, h⟩ := bind_eq_ok.mp h
    obtain ⟨m2, h2, h⟩ := bind_eq_ok.mp h
    obtain ⟨sk, -, h⟩ := bind_eq_ok.mp h
    cases h
    exact (skipNext_sameSlots h1).trans
      ((skipPrev_sameSlots h2).trans ⟨rfl, rfl, rfl, fun _ => rfl, Nat.le_refl _⟩)

/-- The release of an interface takes the lock of the instance and removes the interface. It does
not give the lock back. -/
theorem awdsReleaseInterface_sameSlots {ptr : InterfacePtr}
    (h : m.awdsReleaseInterface p ptr = .ok (m', ret)) : SameSlots m m' := by
  obtain ⟨m1, h1, h⟩ := bind_eq_ok.mp h
  obtain ⟨⟨m2, r⟩, h2, h⟩ := bind_eq_ok.mp h
  cases h
  exact (lockInst_sameSlots h1).trans (awdsDelInterfaceLocked_sameSlots h2)

/-- Creating an interface holds the device and adds the new interface. Where it fails it puts the
device again. Neither touches a slot. -/
theorem awdsCreateInterface_sameSlots {net : Net} {mem : Memory} {addr : SockaddrAwds}
    (h : m.awdsCreateInterface net mem p addr = .ok (m', ret)) : SameSlots m m' := by
  -- References to a device do not touch the slots, so the cases differ in what was allocated before
  -- the call ended.
  have hrefs : ∀ (m : AwdsModule) (dev : DevPtr), SameSlots m (m.devHold dev) ∧
      SameSlots m (m.devPut dev) := fun m dev =>
    ⟨⟨rfl, rfl, rfl, fun _ => rfl, Nat.le_refl _⟩, ⟨rfl, rfl, rfl, fun _ => rfl, Nat.le_refl _⟩⟩
  unfold awdsCreateInterface at h
  split at h
  · cases h
    exact .refl m
  · rename_i dev hdev
    obtain ⟨⟨m1, found⟩, h1, h⟩ := bind_eq_ok.mp h
    have hheld : SameSlots m m1 := (hrefs m dev).1.trans (awdsFindInterface_sameSlots h1)
    dsimp only at h
    split at h
    · cases h
      exact hheld.trans (hrefs m1 dev).2
    -- There is no memory for the interface, or none for its address.
    split at h
    · cases h
      exact hheld.trans (hrefs m1 dev).2
    have halloc : SameSlots m1 { m1 with nextPtr := m1.nextPtr + 1 } :=
      ⟨rfl, rfl, rfl, fun _ => rfl, Nat.le_succ _⟩
    split at h
    · cases h
      exact hheld.trans (halloc.trans (hrefs _ dev).2)
    · obtain ⟨⟨m2, r⟩, h2, h⟩ := bind_eq_ok.mp h
      have hadded : SameSlots m m2 := hheld.trans (halloc.trans
        ((setIface_sameSlots _ _ _).trans (awdsAddInterface_sameSlots h2)))
      dsimp only at h
      -- The index of the interface is not 0, so it is released again.
      split at h
      · cases h
        exact hadded
      · obtain ⟨⟨m3, r'⟩, h3, h⟩ := bind_eq_ok.mp h
        cases h
        exact hadded.trans (awdsReleaseInterface_sameSlots h3)

/-- The loop of the release takes the interfaces out one by one. The induction is on the fuel. -/
theorem releaseLoop_sameSlots {stale : InterfacePtr → Option InterfacePtr} {n : Nat}
    {ptr : Option InterfacePtr} (h : releaseLoop stale p n ptr m = .ok (m', ret)) :
    SameSlots m m' := by
  induction n generalizing ptr m with
  | zero => cases h
  | succ n ih =>
    cases ptr with
    | none =>
      cases h
      exact .refl _
    | some ptr =>
      unfold releaseLoop at h
      obtain ⟨⟨m1, r⟩, h1, h⟩ := bind_eq_ok.mp h
      have hone := awdsReleaseInterface_sameSlots h1
      dsimp only at h
      split at h
      · cases h
        exact hone
      · exact hone.trans (ih h)

end

/-! ### The slots -/

/-- The socket of the instance in a slot. -/
def sockAt (m : AwdsModule) (i : Nat) : Option SockPtr := do
  let p ← m.awdsInstances i
  let inst ← m.instances p
  inst.sock

/-- What a slot holds is read from the array and from the sockets of the instances, which are kept.
-/
theorem SameSlots.sockAt {m m' : AwdsModule} (h : SameSlots m m') (i : Nat) :
    sockAt m' i = sockAt m i := by
  unfold Proofs.sockAt
  rw [h.slots]
  cases m.awdsInstances i with
  | none => rfl
  | some p =>
    have hp := h.sock p
    show (m'.instances p).bind (·.sock) = (m.instances p).bind (·.sock)
    cases hm : m.instances p <;> cases hm' : m'.instances p <;> simp [hm, hm'] at hp ⊢
    exact hp

/-- Whether a slot is one of those up to the top. -/
def Used (m : AwdsModule) (i : Nat) : Prop := (i : Int) ≤ m.awdsInstanceIndex

/-- The slots up to the top hold the instances of the bound sockets, each once, and the other
slots are empty. -/
structure SlotsOk (m : AwdsModule) (bound : Set SockPtr) : Prop where
  top_ge : -1 ≤ m.awdsInstanceIndex
  top_le : m.awdsInstanceIndex ≤ maxAwdsIndex
  fresh : ∀ p, m.nextPtr ≤ p → m.instances p = none
  filled : ∀ i, Used m i → ∃ sk ∈ bound, sockAt m i = some sk
  empty : ∀ i, ¬ Used m i → m.awdsInstances i = none
  once : ∀ i j sk, Used m i → Used m j → sockAt m i = some sk → sockAt m j = some sk → i = j
  found : ∀ sk ∈ bound, ∃ i, Used m i ∧ sockAt m i = some sk

section
variable {m m' : AwdsModule} {bound : Set SockPtr} {sk : SockPtr}

/-- What the slots are is not changed by an operation on interfaces. -/
theorem SlotsOk.congr (h : SlotsOk m bound) (hs : SameSlots m m') : SlotsOk m' bound := by
  -- The same slots are used in both states.
  have hused : ∀ i, Used m' i ↔ Used m i := fun i => by
    unfold Used
    rw [hs.top]
  constructor
  · rw [hs.top]
    exact h.top_ge
  · rw [hs.top]
    exact h.top_le
  · intro p hp
    have hsock := hs.sock p
    rw [h.fresh p (hs.nextPtr.trans hp)] at hsock
    simpa using hsock
  · intro i hi
    rw [hs.sockAt]
    exact h.filled i ((hused i).mp hi)
  · intro i hi
    rw [hs.slots]
    exact h.empty i (mt (hused i).mpr hi)
  · intro i j sk hi hj hsi hsj
    rw [hs.sockAt] at hsi hsj
    exact h.once i j sk ((hused i).mp hi) ((hused j).mp hj) hsi hsj
  · intro sk hsk
    obtain ⟨i, hi, hsi⟩ := h.found sk hsk
    exact ⟨i, (hused i).mpr hi, by rw [hs.sockAt, hsi]⟩

/-- A slot holds a socket exactly if it points to an instance that was not freed and that has this
socket. -/
theorem sockAt_eq_some {i : Nat} : sockAt m i = some sk ↔
    ∃ p inst, m.awdsInstances i = some p ∧ m.instances p = some inst ∧ inst.sock = some sk := by
  simp [sockAt, Option.bind_eq_some_iff]

/-! ### The lookup -/

/-- A turn of the lookup at a slot that is filled. -/
theorem findIndexLoop_step {n i : Nat} {s : SockPtr} (hs : sockAt m i = some s) :
    m.findIndexLoop sk (n + 1) i =
      if s = sk then .ok (i : Int) else m.findIndexLoop sk n (i + 1) := by
  obtain ⟨p, inst, hp, hinst, hsock⟩ := sockAt_eq_some.mp hs
  rw [findIndexLoop, hp]
  show (do
    let inst ← m.inst p
    if inst.sock = some sk then Except.ok (i : Int) else m.findIndexLoop sk n (i + 1)) = _
  rw [inst_eq_ok.mpr hinst]
  show (if inst.sock = some sk then _ else _) = _
  rw [hsock]
  simp only [Option.some.injEq]

/-- The loop of the lookup over slots that are all filled: it returns the first slot of the
socket. -/
theorem findIndexLoop_run (sk : SockPtr) {n i : Nat}
    (hfilled : ∀ j, i ≤ j → j < i + n → (sockAt m j).isSome) :
    (∃ j, i ≤ j ∧ j < i + n ∧ sockAt m j = some sk ∧ m.findIndexLoop sk n i = .ok j) ∨
      ((∀ j, i ≤ j → j < i + n → sockAt m j ≠ some sk) ∧
        m.findIndexLoop sk n i = .ok (-eawdsMissing)) := by
  induction n generalizing i with
  | zero => exact .inr ⟨fun j h1 h2 => by omega, rfl⟩
  | succ n ih =>
    obtain ⟨sk', hsk'⟩ := Option.isSome_iff_exists.mp (hfilled i (Nat.le_refl _) (by omega))
    rw [findIndexLoop_step hsk']
    by_cases heq : sk' = sk
    · rw [if_pos heq]
      exact .inl ⟨i, Nat.le_refl _, by omega, heq ▸ hsk', rfl⟩
    · rw [if_neg heq]
      rcases ih (i := i + 1) fun j h1 h2 => hfilled j (by omega) (by omega) with
        ⟨j, h1, h2, hj, hrun⟩ | ⟨hnone, hrun⟩
      · exact .inl ⟨j, by omega, by omega, hj, hrun⟩
      · refine .inr ⟨fun j h1 h2 hj => ?_, hrun⟩
        by_cases hji : j = i
        · subst hji
          rw [hsk'] at hj
          exact heq (Option.some.inj hj)
        · exact hnone j (by omega) (by omega) hj

/-- The lookup returns the slot of a bound socket and nothing for another one. It never
meets an empty slot. -/
theorem SlotsOk.findIndex (h : SlotsOk m bound) (hmutex : m.mutex = true) (sk : SockPtr) :
    (∃ i, Used m i ∧ sockAt m i = some sk ∧
        m.awdsFindInstanceIndexBySockLocked sk = .ok (i : Int)) ∨
      ((∀ i, Used m i → sockAt m i ≠ some sk) ∧
        m.awdsFindInstanceIndexBySockLocked sk = .ok (-eawdsMissing)) := by
  have hn : ∀ i : Nat, i < (m.awdsInstanceIndex + 1).toNat ↔ Used m i := fun i => by
    unfold Used
    omega
  unfold awdsFindInstanceIndexBySockLocked
  rw [if_neg (by simp [hmutex])]
  rcases findIndexLoop_run (m := m) sk (n := (m.awdsInstanceIndex + 1).toNat) (i := 0)
    (fun j _ hj => by
      obtain ⟨s, -, hs⟩ := h.filled j ((hn j).mp (by omega))
      rw [hs]
      rfl) with ⟨j, -, hj, hsj, hrun⟩ | ⟨hnone, hrun⟩
  · exact .inl ⟨j, (hn j).mp (by omega), hsj, hrun⟩
  · refine .inr ⟨fun i hi => hnone i (Nat.zero_le _) ?_, hrun⟩
    rw [Nat.zero_add]
    exact (hn i).mpr hi

/-- The instance that the lookup returns. -/
theorem SlotsOk.findInstance (h : SlotsOk m bound) (hmutex : m.mutex = true) (sk : SockPtr) :
    (∃ i p, Used m i ∧ m.awdsInstances i = some p ∧ sockAt m i = some sk ∧
        m.awdsFindInstanceBySockLocked sk = .ok (some p)) ∨
      (sk ∉ bound ∧ m.awdsFindInstanceBySockLocked sk = .ok none) := by
  unfold awdsFindInstanceBySockLocked
  rw [if_neg (by simp [hmutex])]
  rcases h.findIndex hmutex sk with ⟨i, hi, hsi, hrun⟩ | ⟨hnone, hrun⟩
  · obtain ⟨p, inst, hp, -⟩ := sockAt_eq_some.mp hsi
    refine .inl ⟨i, p, hi, hp, hsi, ?_⟩
    rw [hrun]
    show (if (i : Int) = -5 then Except.ok none
      else Except.ok (m.awdsInstances (i : Int).toNat)) = _
    rw [if_neg (by omega), Int.toNat_natCast, hp]
  · refine .inr ⟨fun hsk => ?_, by rw [hrun]; rfl⟩
    obtain ⟨i, hi, hsi⟩ := h.found sk hsk
    exact hnone i hi hsi

end

/-! ### Binding -/

section
variable {m m' : AwdsModule} {bound : Set SockPtr} {sk : SockPtr} {p : InstancePtr}

/-- An instance that is allocated, and perhaps freed again, is in no slot. -/
theorem SlotsOk.allocated (h : SlotsOk m bound) (hslots : m'.awdsInstances = m.awdsInstances)
    (htop : m'.awdsInstanceIndex = m.awdsInstanceIndex) (hnext : m.nextPtr < m'.nextPtr)
    (hsock : ∀ q, q ≠ m.nextPtr →
      (m'.instances q).map AwdsInstance.sock = (m.instances q).map AwdsInstance.sock) :
    SlotsOk m' bound := by
  have hused : ∀ i, Used m' i ↔ Used m i := fun i => by
    unfold Used
    rw [htop]
  -- A slot that is in use holds an older instance than the new one, so its socket is the same.
  have hat : ∀ i, Used m i → sockAt m' i = sockAt m i := by
    intro i hi
    obtain ⟨s, -, hs⟩ := h.filled i hi
    obtain ⟨q, inst, hq, hinst, hsk⟩ := sockAt_eq_some.mp hs
    have hne : q ≠ m.nextPtr := by
      rintro rfl
      rw [h.fresh _ (Nat.le_refl _)] at hinst
      cases hinst
    have hq' := hsock q hne
    rw [hinst, Option.map_some, Option.map_eq_some_iff] at hq'
    obtain ⟨inst', hinst', heq⟩ := hq'
    rw [hs, sockAt_eq_some]
    exact ⟨q, inst', by rw [hslots, hq], hinst', heq.trans hsk⟩
  constructor
  · rw [htop]
    exact h.top_ge
  · rw [htop]
    exact h.top_le
  · intro q hq
    have hq' := hsock q (by omega)
    rw [h.fresh q (by omega)] at hq'
    simpa using hq'
  · intro i hi
    have hi' := (hused i).mp hi
    rw [hat i hi']
    exact h.filled i hi'
  · intro i hi
    rw [hslots]
    exact h.empty i (mt (hused i).mpr hi)
  · intro i j s hi hj hsi hsj
    have hi' := (hused i).mp hi
    have hj' := (hused j).mp hj
    rw [hat i hi'] at hsi
    rw [hat j hj'] at hsj
    exact h.once i j s hi' hj' hsi hsj
  · intro s hs
    obtain ⟨i, hi, hsi⟩ := h.found s hs
    exact ⟨i, (hused i).mpr hi, by rw [hat i hi, hsi]⟩

/-- The state behind `__awds_add_instance`. -/
def withInstance (m : AwdsModule) (p : InstancePtr) (inst : AwdsInstance) : AwdsModule :=
  { m.setInst p (some { inst with index := m.awdsInstanceIndex + 1 }) with
    awdsInstanceIndex := m.awdsInstanceIndex + 1
    awdsInstances :=
      Function.update m.awdsInstances (m.awdsInstanceIndex + 1).toNat (some p) }

/-- A new instance goes into the slot above the top. -/
theorem awdsAddInstanceLocked_run (hmutex : m.mutex = true)
    (hroom : m.awdsInstanceIndex < maxAwdsIndex) {inst : AwdsInstance}
    (hinst : m.instances p = some inst) (hnew : ∀ i, m.awdsInstances i ≠ some p) :
    m.awdsAddInstanceLocked p = .ok (withInstance m p inst, 0) := by
  unfold awdsAddInstanceLocked
  rw [if_neg (by simp [hmutex]), if_neg fun hc => hnew _ hc.2, if_neg hroom.ne]
  show (do
    let i ← m.inst p
    Except.ok (withInstance m p i, (0 : Int))) = _
  rw [inst_eq_ok.mpr hinst]
  rfl

/-- An instance for a new socket goes into the slot above the top. The sockets that were bound keep
their slots, and the new one has the new top. -/
theorem SlotsOk.withInstance (h : SlotsOk m bound) (hroom : m.awdsInstanceIndex < maxAwdsIndex)
    {inst : AwdsInstance} (hinst : m.instances p = some inst) (hsock : inst.sock = some sk)
    (hnew : ∀ i, m.awdsInstances i ≠ some p) (hsk : sk ∉ bound) :
    SlotsOk (withInstance m p inst) (insert sk bound) := by
  have hge := h.top_ge
  have hused : ∀ i, Used (Proofs.withInstance m p inst) i ↔
      Used m i ∨ i = (m.awdsInstanceIndex + 1).toNat := fun i => by
    -- The slots in use are the old ones and the one behind the top.
    show (i : Int) ≤ m.awdsInstanceIndex + 1 ↔ (i : Int) ≤ m.awdsInstanceIndex ∨ _
    omega
  have htopNot : ¬ Used m (m.awdsInstanceIndex + 1).toNat := by
    unfold Used
    omega
  -- An old slot is not the new one, and its instance is another one.
  have hold : ∀ i, Used m i → sockAt (Proofs.withInstance m p inst) i = sockAt m i := by
    intro i hi
    have hne : i ≠ (m.awdsInstanceIndex + 1).toNat := fun hc => htopNot (hc ▸ hi)
    obtain ⟨s, -, hs⟩ := h.filled i hi
    obtain ⟨q, inst', hq, hinst', hsk'⟩ := sockAt_eq_some.mp hs
    have hqp : q ≠ p := fun hc => hnew i (hc ▸ hq)
    rw [hs, sockAt_eq_some]
    refine ⟨q, inst', ?_, ?_, hsk'⟩
    · show Function.update m.awdsInstances _ _ i = _
      rw [Function.update_of_ne hne, hq]
    · show Function.update m.instances _ _ q = _
      rw [Function.update_of_ne hqp, hinst']
  have htop : sockAt (Proofs.withInstance m p inst) (m.awdsInstanceIndex + 1).toNat = some sk := by
    rw [sockAt_eq_some]
    exact ⟨p, _, Function.update_self _ _ _, Function.update_self _ _ _, hsock⟩
  -- No old slot has the socket, since it was not bound.
  have hother : ∀ i, Used m i → sockAt m i ≠ some sk := by
    intro i hi hc
    obtain ⟨s, hs, hsi⟩ := h.filled i hi
    rw [hc] at hsi
    exact hsk (Option.some.inj hsi ▸ hs)
  constructor
  · show -1 ≤ m.awdsInstanceIndex + 1
    omega
  · show m.awdsInstanceIndex + 1 ≤ maxAwdsIndex
    exact hroom
  · intro q hq
    show Function.update m.instances p _ q = none
    have hqn := h.fresh q hq
    rw [Function.update_of_ne fun hc => by rw [hc, hinst] at hqn; cases hqn]
    exact hqn
  · intro i hi
    rcases (hused i).mp hi with hi | rfl
    · obtain ⟨s, hs, hsi⟩ := h.filled i hi
      exact ⟨s, Set.mem_insert_of_mem _ hs, by rw [hold i hi, hsi]⟩
    · exact ⟨sk, Set.mem_insert _ _, htop⟩
  · intro i hi
    have hi' : ¬ (Used m i ∨ i = (m.awdsInstanceIndex + 1).toNat) := mt (hused i).mpr hi
    show Function.update m.awdsInstances _ _ i = none
    rw [Function.update_of_ne fun hc => hi' (.inr hc)]
    exact h.empty i fun hc => hi' (.inl hc)
  · -- Two slots with one socket: both are old, or both are the new one.
    intro i j s hi hj hsi hsj
    rcases (hused i).mp hi with hi | rfl
    · rw [hold i hi] at hsi
      rcases (hused j).mp hj with hj | rfl
      · rw [hold j hj] at hsj
        exact h.once i j s hi hj hsi hsj
      · rw [htop] at hsj
        exact absurd (hsi.trans hsj.symm) (hother i hi)
    · rw [htop] at hsi
      rcases (hused j).mp hj with hj | rfl
      · rw [hold j hj] at hsj
        exact absurd (hsj.trans hsi.symm) (hother j hj)
      · rfl
  · intro s hs
    rcases Set.mem_insert_iff.mp hs with rfl | hs
    · exact ⟨_, (hused _).mpr (.inr rfl), htop⟩
    · obtain ⟨i, hi, hsi⟩ := h.found s hs
      exact ⟨i, (hused i).mpr (.inl hi), by rw [hold i hi, hsi]⟩

/-- An empty slot does not become a filled one without `__awds_add_instance`, and a filled one
is not written. -/
def KeepsInstances (m m' : AwdsModule) : Prop :=
  ∀ i p, m.awdsInstances i = some p → m'.awdsInstances i = some p

/-- The allocations in front of `awds_create_interface`. -/
def withAllocation (m : AwdsModule) (sk : SockPtr) : AwdsModule :=
  ({ m with nextPtr := m.nextPtr + 1 }.setInst m.nextPtr (some { sock := some sk })).setSock sk
    { m.socks sk with interf := none, table := {} }

/-- An allocation touches none of the instances that were there. -/
theorem withAllocation_sock (m : AwdsModule) (sk : SockPtr) {q : InstancePtr} (hq : q ≠ m.nextPtr) :
    ((withAllocation m sk).instances q).map AwdsInstance.sock
      = (m.instances q).map AwdsInstance.sock := by
  show (Function.update m.instances m.nextPtr _ q).map _ = _
  rw [Function.update_of_ne hq]

/-- The first `bind` of a socket adds its instance if it returns 0, and otherwise nothing. -/
theorem SlotsOk.createInstance (h : SlotsOk m bound) (hmutex : m.mutex = true)
    (hsk : sk ∉ bound) {net : Net} {mem : Memory} {addr : SockaddrAwds} {ret : Int}
    (hrun : m.awdsCreateInstanceLocked net mem sk addr = .ok (m', ret)) :
    SlotsOk m' (if ret = 0 then insert sk bound else bound) ∧ KeepsInstances m m' ∧
      m'.mutex = true := by
  unfold awdsCreateInstanceLocked at hrun
  -- There is no slot left, and the code returns the top.
  by_cases hfull : maxAwdsIndex ≤ m.awdsInstanceIndex
  · rw [if_pos hfull] at hrun
    cases hrun
    have htop : maxAwdsIndex = m.awdsInstanceIndex := le_antisymm hfull h.top_le
    rw [htop]
    exact ⟨h, fun _ _ hp => hp, hmutex⟩
  rw [if_neg hfull] at hrun
  by_cases hmem : (!mem.instOk) = true
  · rw [if_pos hmem] at hrun
    cases hrun
    exact ⟨h, fun _ _ hp => hp, hmutex⟩
  rw [if_neg hmem] at hrun
  obtain ⟨⟨m3, r⟩, h3, hrun⟩ := bind_eq_ok.mp hrun
  -- What the creation of the interface does keeps the slots.
  have hsame : SameSlots (withAllocation m sk) m3 := awdsCreateInterface_sameSlots h3
  have hslots : m3.awdsInstances = m.awdsInstances := hsame.slots
  have htop : m3.awdsInstanceIndex = m.awdsInstanceIndex := hsame.top
  have hnext : m.nextPtr < m3.nextPtr := Nat.lt_of_succ_le hsame.nextPtr
  have hsock : ∀ q, q ≠ m.nextPtr →
      (m3.instances q).map AwdsInstance.sock = (m.instances q).map AwdsInstance.sock :=
    fun q hq => (hsame.sock q).trans (withAllocation_sock m sk hq)
  have h3ok : SlotsOk m3 bound := h.allocated hslots htop hnext hsock
  -- The address of the new instance is in no slot: those in use hold older ones, and the others
  -- nothing.
  have hnew : ∀ i, m3.awdsInstances i ≠ some m.nextPtr := by
    intro i hi
    rw [hslots] at hi
    by_cases hused : Used m i
    · obtain ⟨s, -, hs⟩ := h.filled i hused
      obtain ⟨q, inst, hq, hinst, -⟩ := sockAt_eq_some.mp hs
      rw [hi] at hq
      cases hq
      rw [h.fresh _ (Nat.le_refl _)] at hinst
      cases hinst
    · rw [h.empty i hused] at hi
      cases hi
  -- The interface has the index 0: the instance gets a slot.
  by_cases hr : r = 0
  · subst hr
    obtain ⟨inst, hinst, hinstSock⟩ : ∃ inst, m3.instances m.nextPtr = some inst ∧
        inst.sock = some sk := by
      have hp := hsame.sock m.nextPtr
      rw [show (withAllocation m sk).instances m.nextPtr = some { sock := some sk } from
        Function.update_self _ _ _, Option.map_some, Option.map_eq_some_iff] at hp
      exact hp
    have hmutex3 : m3.mutex = true := hsame.mutex.trans hmutex
    have hroom : m3.awdsInstanceIndex < maxAwdsIndex := by
      rw [htop]
      exact lt_of_not_ge hfull
    dsimp only at hrun
    rw [if_pos rfl, awdsAddInstanceLocked_run hmutex3 hroom hinst hnew] at hrun
    cases hrun
    refine ⟨?_, fun i q hi => ?_, hmutex3⟩
    · rw [if_pos rfl]
      exact h3ok.withInstance hroom hinst hinstSock hnew hsk
    · have hused : Used m i := by
        by_contra hc
        rw [h.empty i hc] at hi
        cases hi
      have hne : i ≠ (m3.awdsInstanceIndex + 1).toNat := by
        unfold Used at hused
        omega
      show Function.update m3.awdsInstances _ _ i = some q
      rw [Function.update_of_ne hne, hslots, hi]
  · -- Any other value of the call is taken for an error, and the instance is freed.
    dsimp only at hrun
    rw [if_neg hr] at hrun
    cases hrun
    refine ⟨?_, fun i q hi => ?_, hsame.mutex.trans hmutex⟩
    · rw [if_neg hr]
      refine h.allocated hslots htop hnext fun q hq => ?_
      show (Function.update m3.instances m.nextPtr none q).map _ = _
      rw [Function.update_of_ne hq]
      exact hsock q hq
    · show m3.awdsInstances i = some q
      rw [hslots, hi]

/-- The mutex does not matter for the slots. -/
theorem SlotsOk.setMutex (h : SlotsOk m bound) (b : Bool) :
    SlotsOk { m with mutex := b } bound :=
  ⟨h.top_ge, h.top_le, h.fresh, h.filled, h.empty, h.once, h.found⟩

/-- The mutex is taken exactly if it is free. The flag is the only change. -/
theorem lockMutex_eq_ok :
    m.lockMutex = .ok m' ↔ m.mutex = false ∧ m' = { m with mutex := true } := by
  unfold lockMutex
  cases m.mutex <;> simp [eq_comm]

/-- The mutex is given back exactly if it is held. The flag is the only change. -/
theorem unlockMutex_eq_ok :
    m.unlockMutex = .ok m' ↔ m.mutex = true ∧ m' = { m with mutex := false } := by
  unfold unlockMutex
  cases m.mutex <;> simp [eq_comm]

/-- A `bind` keeps the slots, and it overwrites no instance. -/
theorem SlotsOk.bind (h : SlotsOk m bound) {net : Net} {mem : Memory} {addr : SockaddrAwds}
    {ret : Int} (hrun : m.awdsSocketBind net mem sk addr = .ok (m', ret)) :
    SlotsOk m' (if ret = 0 then insert sk bound else bound) ∧ KeepsInstances m m' := by
  obtain ⟨m1, h1, hrun⟩ := bind_eq_ok.mp hrun
  obtain ⟨-, rfl⟩ := lockMutex_eq_ok.mp h1
  obtain ⟨found, h2, hrun⟩ := bind_eq_ok.mp hrun
  obtain ⟨⟨m3, r⟩, h3, hrun⟩ := bind_eq_ok.mp hrun
  obtain ⟨m4, h4, hrun⟩ := bind_eq_ok.mp hrun
  obtain ⟨-, rfl⟩ := unlockMutex_eq_ok.mp h4
  cases hrun
  -- What the call does between lock and unlock is looked at with the mutex held.
  have hl : SlotsOk { m with mutex := true } bound := h.setMutex true
  rcases hl.findInstance rfl sk with ⟨i, p, hi, hp, hsi, hfound⟩ | ⟨hsk, hfound⟩
  · -- the socket is bound already
    rw [hfound] at h2
    cases h2
    have hsame : SameSlots { m with mutex := true } m3 := awdsCreateInterface_sameSlots h3
    have hmem : sk ∈ bound := by
      obtain ⟨s, hs, hs'⟩ := hl.filled i hi
      rw [hsi] at hs'
      cases hs'
      exact hs
    have hinsert : (if ret = 0 then insert sk bound else bound) = bound := by
      split
      · exact Set.insert_eq_of_mem hmem
      · rfl
    rw [hinsert]
    refine ⟨(hl.congr hsame).setMutex false, fun i q hq => ?_⟩
    show m3.awdsInstances i = some q
    rw [hsame.slots]
    exact hq
  · -- The socket gets a new instance.
    rw [hfound] at h2
    cases h2
    obtain ⟨hok, hkeep, -⟩ := hl.createInstance rfl hsk h3
    exact ⟨hok.setMutex false, hkeep⟩

end

/-! ### Releasing -/

section
variable {m m' : AwdsModule} {bound : Set SockPtr} {sk : SockPtr} {p : InstancePtr}
  {stale : InterfacePtr → Option InterfacePtr} {ret : Int}

/-- A release of an interface that returns reports no error. -/
theorem awdsReleaseInterface_ret {ptr : InterfacePtr}
    (h : m.awdsReleaseInterface p ptr = .ok (m', ret)) : ret = 0 := by
  obtain ⟨m1, -, h⟩ := bind_eq_ok.mp h
  obtain ⟨⟨m2, r⟩, -, h⟩ := bind_eq_ok.mp h
  cases h
  rfl

/-- Nor does the loop over the interfaces of an instance. The induction is on the fuel. -/
theorem releaseLoop_ret {n : Nat} {ptr : Option InterfacePtr}
    (h : releaseLoop stale p n ptr m = .ok (m', ret)) : ret = 0 := by
  induction n generalizing ptr m with
  | zero => cases h
  | succ n ih =>
    cases ptr with
    | none =>
      cases h
      rfl
    | some ptr =>
      unfold releaseLoop at h
      obtain ⟨⟨m1, r⟩, h1, h⟩ := bind_eq_ok.mp h
      have hr := awdsReleaseInterface_ret h1
      subst hr
      exact ih h

/-- The search of `__awds_del_instance` for an instance that is in one slot only. -/
theorem slotOf_run {n i j : Nat} (hj : m.awdsInstances j = some p)
    (honly : ∀ k, m.awdsInstances k = some p → k = j) (hle : i ≤ j) (hlt : j < i + n) :
    m.slotOf p n i = some j := by
  induction n generalizing i with
  | zero => omega
  | succ n ih =>
    unfold slotOf
    by_cases hij : i = j
    · subst hij
      rw [if_pos hj]
    · rw [if_neg fun hc => hij (honly i hc)]
      exact ih (by omega) (by omega)

/-- The instance of a slot is in no other slot. -/
theorem SlotsOk.only (h : SlotsOk m bound) {i : Nat} (hi : Used m i)
    (hp : m.awdsInstances i = some p) (k : Nat) (hk : m.awdsInstances k = some p) : k = i := by
  have hused : Used m k := by
    by_contra hc
    rw [h.empty k hc] at hk
    cases hk
  obtain ⟨s, -, hs⟩ := h.filled i hi
  have hsame : sockAt m k = sockAt m i := by
    unfold sockAt
    rw [hk, hp]
  exact h.once k i s hused hi (hsame.trans hs) hs

/-- The state behind `__awds_del_instance` and `kfree`. -/
def withoutInstance (m : AwdsModule) (p : InstancePtr) (i : Nat) : AwdsModule :=
  { m.setInst p none with
    awdsInstances := Function.update m.awdsInstances i none
    awdsInstanceIndex := m.awdsInstanceIndex - 1 }

/-- What the release of a bound socket does to the slots. -/
theorem SlotsOk.releaseInstance (h : SlotsOk m bound) (hmutex : m.mutex = true) {i : Nat}
    (hi : Used m i) (hp : m.awdsInstances i = some p)
    (hrun : m.awdsReleaseInstanceLocked stale p = .ok (m', ret)) :
    ∃ m2, SlotsOk m2 bound ∧ m2.awdsInstanceIndex = m.awdsInstanceIndex ∧
      (∀ j, sockAt m2 j = sockAt m j) ∧ m2.awdsInstances i = some p ∧
      m' = withoutInstance m2 p i ∧ m2.mutex = true := by
  unfold awdsReleaseInstanceLocked at hrun
  rw [if_neg (by simp [hmutex])] at hrun
  obtain ⟨s, -, hrun⟩ := bind_eq_ok.mp hrun
  obtain ⟨⟨m2, r⟩, h2, hrun⟩ := bind_eq_ok.mp hrun
  have hr := releaseLoop_ret h2
  subst hr
  -- The loop over the interfaces keeps the slots.
  have hsame : SameSlots m m2 := (setSock_sameSlots _ _ _).trans (releaseLoop_sameSlots h2)
  have h2ok := h.congr hsame
  have hused : Used m2 i := by
    unfold Used
    rw [hsame.top]
    exact hi
  have hp2 : m2.awdsInstances i = some p := by rw [hsame.slots, hp]
  dsimp only at hrun
  rw [if_neg (by decide)] at hrun
  obtain ⟨⟨m3, r3⟩, h3, hrun⟩ := bind_eq_ok.mp hrun
  obtain ⟨inst, hinst, h3⟩ := bind_eq_ok.mp h3
  have hmutex2 : m2.mutex = true := hsame.mutex.trans hmutex
  -- `awds_del_instance` finds the slot of the instance, which is in no other one.
  have hslot : m2.slotOf p (m2.awdsInstanceIndex + 1).toNat 0 = some i := by
    refine slotOf_run hp2 (h2ok.only hused hp2) (Nat.zero_le _) ?_
    unfold Used at hused
    omega
  rw [if_neg (by simp [hmutex2]), hslot] at h3
  cases h3
  cases hrun
  refine ⟨m2, h2ok, hsame.top, hsame.sockAt, hp2, ?_, hmutex2⟩
  simp only [withoutInstance, setInst, Function.update_idem]

/-- The release of the socket in the top slot. -/
theorem SlotsOk.withoutTop (h : SlotsOk m bound) {i : Nat} (hi : (i : Int) = m.awdsInstanceIndex)
    (hp : m.awdsInstances i = some p) (hsi : sockAt m i = some sk) :
    SlotsOk (withoutInstance m p i) (bound \ {sk}) := by
  have hused : ∀ j, Used (withoutInstance m p i) j ↔ Used m j ∧ j ≠ i := fun j => by
    show (j : Int) ≤ m.awdsInstanceIndex - 1 ↔ (j : Int) ≤ m.awdsInstanceIndex ∧ j ≠ i
    omega
  have hui : Used m i := hi.le
  -- The other slots hold other instances.
  have hat : ∀ j, Used m j → j ≠ i → sockAt (withoutInstance m p i) j = sockAt m j := by
    intro j hj hne
    obtain ⟨s, -, hs⟩ := h.filled j hj
    obtain ⟨q, inst, hq, hinst, hsk⟩ := sockAt_eq_some.mp hs
    have hqp : q ≠ p := by
      rintro rfl
      exact hne (h.only hui hp j hq)
    rw [hs, sockAt_eq_some]
    refine ⟨q, inst, ?_, ?_, hsk⟩
    · show Function.update m.awdsInstances i none j = _
      rw [Function.update_of_ne hne, hq]
    · show Function.update m.instances p none q = _
      rw [Function.update_of_ne hqp, hinst]
  constructor
  · show -1 ≤ m.awdsInstanceIndex - 1
    omega
  · show m.awdsInstanceIndex - 1 ≤ maxAwdsIndex
    have := h.top_le
    omega
  · intro q hq
    show Function.update m.instances p none q = none
    by_cases hqp : q = p
    · rw [hqp, Function.update_self]
    · rw [Function.update_of_ne hqp]
      exact h.fresh q hq
  · -- What is left is bound, and it is not the socket of the slot that was emptied.
    intro j hj
    obtain ⟨hj, hne⟩ := (hused j).mp hj
    obtain ⟨s, hs, hsj⟩ := h.filled j hj
    refine ⟨s, ⟨hs, ?_⟩, by rw [hat j hj hne, hsj]⟩
    rintro rfl
    exact hne (h.once j i s hj hui hsj hsi)
  · intro j hj
    show Function.update m.awdsInstances i none j = none
    by_cases hne : j = i
    · rw [hne, Function.update_self]
    · rw [Function.update_of_ne hne]
      exact h.empty j fun hc => hj ((hused j).mpr ⟨hc, hne⟩)
  · intro j k s hj hk hsj hsk'
    obtain ⟨hj, hjne⟩ := (hused j).mp hj
    obtain ⟨hk, hkne⟩ := (hused k).mp hk
    rw [hat j hj hjne] at hsj
    rw [hat k hk hkne] at hsk'
    exact h.once j k s hj hk hsj hsk'
  · -- A socket that is bound still had a slot other than the last one.
    rintro s ⟨hs, hne⟩
    obtain ⟨j, hj, hsj⟩ := h.found s hs
    have hji : j ≠ i := by
      rintro rfl
      rw [hsi] at hsj
      exact hne (Option.some.inj hsj).symm
    exact ⟨j, (hused j).mpr ⟨hj, hji⟩, by rw [hat j hj hji, hsj]⟩

/-- The socket has no instance, or it has the one in the top slot. -/
def ReleasesTop (m : AwdsModule) (sk : SockPtr) : Prop :=
  ∀ i, Used m i → sockAt m i = some sk → (i : Int) = m.awdsInstanceIndex

/-- A `release` that returns: the socket was not bound and nothing changes, or the slot of its
instance is emptied and the top is lowered. -/
theorem SlotsOk.release_cases (h : SlotsOk m bound)
    (hrun : m.awdsSocketRelease stale sk = .ok (m', ret)) :
    (sk ∉ bound ∧ SlotsOk m' bound) ∨
      ∃ m2 i p, SlotsOk m2 bound ∧ (∀ j, Used m2 j ↔ Used m j) ∧ Used m i ∧
        sockAt m i = some sk ∧ sockAt m2 i = some sk ∧ m2.awdsInstances i = some p ∧
        m2.awdsInstanceIndex = m.awdsInstanceIndex ∧
        m' = { withoutInstance m2 p i with mutex := false } := by
  obtain ⟨m1, h1, hrun⟩ := bind_eq_ok.mp hrun
  obtain ⟨-, rfl⟩ := lockMutex_eq_ok.mp h1
  obtain ⟨found, h2, hrun⟩ := bind_eq_ok.mp hrun
  obtain ⟨⟨m3, r⟩, h3, hrun⟩ := bind_eq_ok.mp hrun
  obtain ⟨m4, h4, hrun⟩ := bind_eq_ok.mp hrun
  obtain ⟨-, rfl⟩ := unlockMutex_eq_ok.mp h4
  cases hrun
  have hl : SlotsOk { m with mutex := true } bound := h.setMutex true
  -- The socket has an instance, or it has none and nothing is done.
  rcases hl.findInstance rfl sk with ⟨i, p, hi, hp, hsi, hfound⟩ | ⟨hsk, hfound⟩
  · rw [hfound] at h2
    cases h2
    obtain ⟨m2, h2ok, htop, hat, hp2, rfl, -⟩ := hl.releaseInstance rfl hi hp h3
    have htop' : m2.awdsInstanceIndex = m.awdsInstanceIndex := htop
    refine .inr ⟨m2, i, p, h2ok, fun j => ?_, hi, hsi, (hat i).trans hsi, hp2, htop', rfl⟩
    unfold Used
    rw [htop']
  · rw [hfound] at h2
    cases h2
    cases h3
    exact .inl ⟨hsk, hl.setMutex false⟩

/-- The release of an unbound socket or of the one in the top slot keeps the slots. -/
theorem SlotsOk.release (h : SlotsOk m bound) (htop : ReleasesTop m sk)
    (hrun : m.awdsSocketRelease stale sk = .ok (m', ret)) : SlotsOk m' (bound \ {sk}) := by
  rcases h.release_cases hrun with
    ⟨hsk, hok⟩ | ⟨m2, i, p, h2ok, -, hi, hsi, hs2, hp2, htop2, rfl⟩
  · rw [Set.sdiff_singleton_eq_self hsk]
    exact hok
  · have hii : (i : Int) = m2.awdsInstanceIndex := (htop i hi hsi).trans htop2.symm
    exact (h2ok.withoutTop hii hp2 hs2).setMutex false

/-- Any other release that returns leaves an empty slot at or below the new top. -/
theorem SlotsOk.release_below_top (h : SlotsOk m bound) (htop : ¬ ReleasesTop m sk)
    (hrun : m.awdsSocketRelease stale sk = .ok (m', ret)) :
    ∃ i, Used m' i ∧ m'.awdsInstances i = none := by
  unfold ReleasesTop at htop
  push Not at htop
  obtain ⟨k, hk, hsk, hne⟩ := htop
  have hmem : sk ∈ bound := by
    obtain ⟨s, hs, hs'⟩ := h.filled k hk
    rw [hsk] at hs'
    cases hs'
    exact hs
  rcases h.release_cases hrun with
    ⟨hnot, -⟩ | ⟨m2, i, p, -, -, hi, hsi, -, -, htop2, rfl⟩
  · exact absurd hmem hnot
  · have hik : i = k := h.once i k sk hi hk hsi hsk
    subst hik
    refine ⟨i, ?_, Function.update_self _ _ _⟩
    show (i : Int) ≤ m2.awdsInstanceIndex - 1
    unfold Used at hk
    omega

end

/-! ### Every run -/

/-- The runs of `bind` and `release` on any sockets from the loading of the module, with the
sockets that are bound. Every `release` is that of an unbound socket or of the one in the top
slot. -/
inductive BindRun : AwdsModule → Set SockPtr → Prop where
  | start : BindRun {} ∅
  | bind {m m' : AwdsModule} {bound : Set SockPtr} {net : Net} {mem : Memory} {sk : SockPtr}
    {addr : SockaddrAwds} {ret : Int} : BindRun m bound →
    m.awdsSocketBind net mem sk addr = .ok (m', ret) →
    BindRun m' (if ret = 0 then insert sk bound else bound)
  | release {m m' : AwdsModule} {bound : Set SockPtr} {sk : SockPtr}
    {stale : InterfacePtr → Option InterfacePtr} {ret : Int} : BindRun m bound →
    ReleasesTop m sk → m.awdsSocketRelease stale sk = .ok (m', ret) →
    BindRun m' (bound \ {sk})

/-- The freshly loaded module has neither instances nor bound sockets. -/
theorem SlotsOk.start : SlotsOk {} ∅ where
  top_ge := by decide
  top_le := by decide
  fresh _ _ := rfl
  filled i hi := by
    have hneg : (i : Int) ≤ -1 := hi
    omega
  empty _ _ := rfl
  once i j sk hi := by
    have hneg : (i : Int) ≤ -1 := hi
    omega
  found sk hsk := hsk.elim

section
variable {m : AwdsModule} {bound : Set SockPtr}

/-- In every run of binds and releases the slots in front of the index hold the bound sockets, each
once. The induction is on the run, with the lemmas for one bind and one release. -/
theorem slotsOk_of_run (h : BindRun m bound) : SlotsOk m bound := by
  induction h with
  | start => exact .start
  | bind _ hrun ih => exact (ih.bind hrun).1
  | release _ htop hrun ih => exact ih.release htop hrun

/-- In every run whose releases are those of unbound sockets or of the socket in the top slot:
the slots up to the top hold distinct live instances of bound sockets, and every bound socket
is in exactly one of them. The lookup of a socket returns its slot if the socket is bound and
`-EAWDSMISSING` otherwise, so it never dereferences an empty slot. No `bind` overwrites an
instance. Any other release that returns leaves an empty slot at or below the top. -/
theorem instances_wellFormed (h : BindRun m bound) :
    (∀ i, Used m i → ∃ p inst, ∃ sk ∈ bound, m.awdsInstances i = some p ∧
      m.instances p = some inst ∧ inst.sock = some sk) ∧
    (∀ i j p, Used m i → Used m j → m.awdsInstances i = some p → m.awdsInstances j = some p →
      i = j) ∧
    (∀ sk ∈ bound, ∃! i, Used m i ∧ sockAt m i = some sk) ∧
    (∀ sk,
      (sk ∈ bound ∧ ∃ i, Used m i ∧ sockAt m i = some sk ∧
        { m with mutex := true }.awdsFindInstanceIndexBySockLocked sk = .ok (i : Int)) ∨
      (sk ∉ bound ∧
        { m with mutex := true }.awdsFindInstanceIndexBySockLocked sk = .ok (-eawdsMissing))) ∧
    (∀ net mem sk addr m' ret, m.awdsSocketBind net mem sk addr = .ok (m', ret) →
      KeepsInstances m m') ∧
    (∀ stale sk m' ret, ¬ ReleasesTop m sk → m.awdsSocketRelease stale sk = .ok (m', ret) →
      ∃ i, Used m' i ∧ m'.awdsInstances i = none) := by
  have hok := slotsOk_of_run h
  refine ⟨fun i hi => ?_, fun i j p hi hj hpi hpj => (hok.only hj hpj i hpi), fun sk hsk => ?_,
    fun sk => ?_, fun net mem sk addr m' ret hrun => (hok.bind hrun).2,
    fun stale sk m' ret htop hrun => hok.release_below_top htop hrun⟩
  · obtain ⟨sk, hsk, hs⟩ := hok.filled i hi
    obtain ⟨p, inst, hp, hinst, hsock⟩ := sockAt_eq_some.mp hs
    exact ⟨p, inst, sk, hsk, hp, hinst, hsock⟩
  · obtain ⟨i, hi, hsi⟩ := hok.found sk hsk
    exact ⟨i, ⟨hi, hsi⟩, fun j hj => hok.once j i sk hj.1 hi hj.2 hsi⟩
  · -- The search goes through the slots in use, which have all bound sockets and no others.
    have hl : SlotsOk { m with mutex := true } bound := hok.setMutex true
    rcases hl.findIndex rfl sk with ⟨i, hi, hsi, hrun⟩ | ⟨hnone, hrun⟩
    · obtain ⟨s, hs, hs'⟩ := hl.filled i hi
      rw [hsi] at hs'
      cases hs'
      exact .inl ⟨hs, i, hi, hsi, hrun⟩
    · refine .inr ⟨fun hsk => ?_, hrun⟩
      obtain ⟨i, hi, hsi⟩ := hl.found sk hsk
      exact hnone i hi hsi

/-- A kernel with the devices 10 and 20. -/
def twoDevices : Net where
  devGetByIndex i := if i = 1 then some 10 else if i = 2 then some 20 else none
  devGetbyhwaddr _ := none

/-- Two sockets are bound and the second one is released. -/
theorem instances_wellFormed_stack : ∃ m bound, BindRun m bound ∧ m.awdsInstanceIndex = 0 ∧
    ∃! i, Used m i ∧ sockAt m i = some 1 := by
  have h1 : BindRun _ _ :=
    @BindRun.bind _ _ _ twoDevices {} 1 ⟨1, []⟩ _ .start rfl
  have h2 : BindRun _ _ :=
    @BindRun.bind _ _ _ twoDevices {} 2 ⟨2, []⟩ _ h1 rfl
  have htop : ReleasesTop _ 2 := fun i hi hs => by
    have hone : i = 1 := (slotsOk_of_run h2).once i 1 2 hi (Int.le_refl 1) hs rfl
    rw [hone]
    rfl
  have h3 : BindRun _ _ := @BindRun.release _ _ _ 2 (fun _ => none) _ h2 htop rfl
  exact ⟨_, _, h3, rfl, (instances_wellFormed h3).2.2.1 1 (by simp)⟩

/-- Two sockets are bound and the first one is released: the slot of the first one is empty,
the second one is above the top, and its lookup dereferences the empty slot. -/
theorem lookup_meets_empty_slot : ∃ m,
    (do
      let (m, _) ← ({} : AwdsModule).awdsSocketBind twoDevices {} 1 ⟨1, []⟩
      let (m, _) ← m.awdsSocketBind twoDevices {} 2 ⟨2, []⟩
      let (m, _) ← m.awdsSocketRelease (fun _ => none) 1
      Except.ok m) = .ok m ∧
    m.awdsInstanceIndex = 0 ∧ m.awdsInstances 0 = none ∧ (m.awdsInstances 1).isSome = true ∧
    { m with mutex := true }.awdsFindInstanceIndexBySockLocked 2 = .error .nullPointer := by
  exact ⟨_, rfl, rfl, rfl, rfl, rfl⟩

end

end Awds.Proofs
