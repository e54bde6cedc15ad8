import Awds.Lib.DoublyLinked
import Awds.Proofs.Kernel.Instances

/-!
# `Awds.Proofs.Kernel.Interfaces`: the list of interfaces of a socket

`Attached m p sk ps` says that the interfaces of the socket `sk` are at the addresses `ps` and
that its instance `p` is not locked. It is what a lookup of a device, an insertion and a
release rely on. `Appended` is what an insertion does and `Detached` is what the release of
the first interface does.

`__awds_add_interface` returns the number of the interface in front of the new one, and 0 for
the first. `awds_create_interface` takes any number but 0 for an error. So the first two
interfaces of a socket are added, and a third one is added and released again
(`Attached.createInterface_third`).
-/

set_option autoImplicit false

namespace Awds.Proofs

open Awds.Lib Awds.Kernel Awds.Kernel.AwdsModule

/-- The device of an interface. -/
def devAt (m : AwdsModule) (q : InterfacePtr) : Option DevPtr := (m.interfaces q).map (·.dev)

/-- The interfaces at the addresses `ps` form a list that begins at `first`. -/
abbrev Links (m : AwdsModule) (first : Option InterfacePtr) (ps : List InterfacePtr) : Prop :=
  Chain AwdsInterface.next AwdsInterface.prev m.interfaces none first ps

/-- The interfaces of the socket `sk` are at the addresses `ps`, and its instance is `p`. -/
structure Attached (m : AwdsModule) (p : InstancePtr) (sk : SockPtr) (ps : List InterfacePtr) :
    Prop where
  inst : ∃ i, m.instances p = some i ∧ i.sock = some sk ∧ i.locked = false
  links : Links m (m.socks sk).interf ps
  nodup : ps.Nodup
  old : ∀ q ∈ ps, q < m.nextPtr

section
variable {m m' : AwdsModule} {p : InstancePtr} {sk : SockPtr} {ps : List InterfacePtr}
  {dev : DevPtr}

/-- The list of a socket does not depend on what is not in it. -/
theorem Attached.frame (h : Attached m p sk ps)
    (hinst : m'.instances p = m.instances p) (hnext : m.nextPtr ≤ m'.nextPtr)
    (hinterf : (m'.socks sk).interf = (m.socks sk).interf)
    (hifaces : ∀ q ∈ ps, m'.interfaces q = m.interfaces q) : Attached m' p sk ps where
  inst := by
    rw [hinst]
    exact h.inst
  links := by
    unfold Links
    rw [hinterf]
    exact h.links.congr hifaces
  nodup := h.nodup
  old q hq := (h.old q hq).trans_le hnext

/-- There are no more interfaces than addresses that `kmalloc` has handed out. -/
theorem Attached.length_le (h : Attached m p sk ps) : ps.length ≤ m.nextPtr := by
  have hsub : ps ⊆ List.range m.nextPtr := fun q hq => List.mem_range.mpr (h.old q hq)
  have hle := (h.nodup.subperm hsub).length_le
  rwa [List.length_range] at hle

/-! ### Finding a device -/

/-- Reading an interface fails if there is none at the address. -/
theorem iface_eq_ok {q : InterfacePtr} {i : AwdsInterface} :
    m.iface q = .ok i ↔ m.interfaces q = some i := by
  unfold iface
  cases m.interfaces q <;> simp

/-- The socket of an instance. -/
theorem sockOf_run {inst : AwdsInstance} (hinst : m.instances p = some inst)
    (hsock : inst.sock = some sk) : m.sockOf p = .ok sk := by
  unfold sockOf
  rw [inst_eq_ok.mpr hinst, except_bind_ok, hsock]

/-- The loop of the lookup returns the first interface of the device. -/
theorem findInterfaceLoop_run {before first : Option InterfacePtr} {n : Nat}
    (h : Chain AwdsInterface.next AwdsInterface.prev m.interfaces before first ps)
    (hn : ps.length < n) :
    m.findInterfaceLoop dev n first = .ok (ps.find? fun q => devAt m q = some dev) := by
  -- The induction is on the list; the number of passes only has to be large enough for it.
  induction ps generalizing before first n with
  | nil =>
    obtain ⟨n, rfl⟩ := Nat.exists_eq_succ_of_ne_zero (Nat.ne_of_gt hn)
    have hfirst : first = none := h
    rw [hfirst]
    rfl
  | cons q ps ih =>
    obtain ⟨n, rfl⟩ := Nat.exists_eq_succ_of_ne_zero (Nat.ne_of_gt (Nat.lt_of_le_of_lt
      (Nat.zero_le _) hn))
    obtain ⟨rfl, i, hi, -, hrest⟩ := h
    have hdev : devAt m q = some i.dev := by
      unfold devAt
      rw [hi]
      rfl
    have hstep : m.findInterfaceLoop dev (n + 1) (some q) =
        if i.dev = dev then .ok (some q) else m.findInterfaceLoop dev n i.next := by
      rw [findInterfaceLoop, iface_eq_ok.mpr hi]
      rfl
    rw [hstep]
    -- The loop stops at the first interface of the device, as `find?` does.
    by_cases heq : i.dev = dev
    · rw [if_pos heq, List.find?_cons_of_pos (by simp [hdev, heq])]
    · rw [if_neg heq, List.find?_cons_of_neg (by simp [hdev, heq])]
      exact ih hrest (Nat.lt_of_succ_lt_succ hn)

/-- A lock that is taken and given back leaves the instance as it was. -/
theorem setInst_twice {i j : AwdsInstance} (hi : m.instances p = some i) :
    (m.setInst p (some j)).setInst p (some i) = m := by
  unfold setInst
  simp only [Function.update_idem]
  rw [← hi, Function.update_eq_self]

/-- The lookup of a device in the interfaces of a socket. It changes nothing. -/
theorem Attached.findInterface (h : Attached m p sk ps) (dev : DevPtr) :
    m.awdsFindInterface p dev = .ok (m, ps.find? fun q => devAt m q = some dev) := by
  obtain ⟨i, hi, hsock, hfree⟩ := h.inst
  let m1 := m.setInst p (some { i with locked := true })
  have hlock : m.lockInst p = .ok m1 := lockInst_eq_ok.mpr ⟨i, hi, hfree, rfl⟩
  have hi1 : m1.instances p = some { i with locked := true } := Function.update_self _ _ _
  have hfind : m1.awdsFindInterfaceLocked p dev =
      .ok (ps.find? fun q => devAt m q = some dev) := by
    unfold awdsFindInterfaceLocked
    rw [inst_eq_ok.mpr hi1, except_bind_ok, if_neg (by simp), sockOf_run hi1 hsock,
      except_bind_ok]
    exact findInterfaceLoop_run (m := m1) h.links (Nat.lt_succ_of_le h.length_le)
  have hunlock : m1.unlockInst p = .ok m := by
    refine unlockInst_eq_ok.mpr ⟨_, hi1, rfl, ?_⟩
    have hsame : ({ i with locked := false } : AwdsInstance) = i := by rw [← hfree]
    show m = m1.setInst p (some { i with locked := false })
    rw [hsame, setInst_twice hi]
  unfold awdsFindInterface
  rw [hlock, except_bind_ok, hfind, except_bind_ok, hunlock]
  rfl

/-- A search for the device finds an interface if one of the list has it. -/
theorem find_isSome_iff :
    (ps.find? fun q => devAt m q = some dev).isSome ↔ some dev ∈ ps.map (devAt m) := by
  rw [List.find?_isSome, List.mem_map]
  simp only [decide_eq_true_eq]

/-! ### Adding an interface -/

/-- The loop of the insertion goes to the end of a list that does not contain the new
interface. -/
theorem lastInterface_run {before : Option InterfacePtr} {q last new : InterfacePtr} {n k : Nat}
    (h : Chain AwdsInterface.next AwdsInterface.prev m.interfaces before (some q) (ps ++ [last]))
    (hnew : new ∉ ps) (hn : ps.length < n) :
    m.lastInterface new n q k = .ok (some (last, k + ps.length)) := by
  -- The loop goes on until an interface has no next one. It counts the interfaces in front of it.
  induction ps generalizing before q n k with
  | nil =>
    obtain ⟨n, rfl⟩ := Nat.exists_eq_succ_of_ne_zero (Nat.ne_of_gt hn)
    obtain ⟨hq, i, hi, -, hend⟩ := h
    cases hq
    have hnext : i.next = none := hend
    rw [lastInterface, iface_eq_ok.mpr hi, except_bind_ok, hnext]
    rfl
  | cons r ps ih =>
    obtain ⟨n, rfl⟩ := Nat.exists_eq_succ_of_ne_zero (Nat.ne_of_gt (Nat.lt_of_le_of_lt
      (Nat.zero_le _) hn))
    obtain ⟨hq, i, hi, -, hrest⟩ := h
    cases hq
    -- It also stops at the new interface, which is not in the list yet.
    obtain ⟨hother, hnew⟩ : new ≠ r ∧ new ∉ ps := by simpa using hnew
    obtain ⟨next, hnext⟩ : ∃ next, i.next = some next := by
      rw [hrest.first_eq]
      cases ps <;> exact ⟨_, rfl⟩
    rw [hnext] at hrest
    rw [lastInterface, iface_eq_ok.mpr hi, except_bind_ok, hnext]
    show (if r = new then _ else m.lastInterface new n next (k + 1)) = _
    rw [if_neg (Ne.symm hother), ih hrest hnew (Nat.lt_of_succ_lt_succ hn), List.length_cons,
      Nat.add_assoc, Nat.add_comm 1]

/-- What an insertion behind the interfaces `ps` does. Only the interfaces and the socket
change. -/
structure Inserted (m m' : AwdsModule) (sk : SockPtr) (ps : List InterfacePtr)
    (new : InterfacePtr) : Prop where
  frame : m' = { m with interfaces := m'.interfaces, socks := m'.socks }
  others : ∀ q, q ∉ ps → q ≠ new → m'.interfaces q = m.interfaces q
  devs : ∀ q, devAt m' q = devAt m q
  socks : ∀ s, s ≠ sk → m'.socks s = m.socks s
  count : (m'.socks sk).ifcount = (m.socks sk).ifcount + 1
  links : Links m' (m'.socks sk).interf (ps ++ [new])

/-- A write to an interface that does not change its device. -/
theorem devAt_setIface {q : InterfacePtr} {i j : AwdsInterface} (hi : m.interfaces q = some i)
    (hdev : j.dev = i.dev) (r : InterfacePtr) : devAt (m.setIface q (some j)) r = devAt m r := by
  unfold devAt
  show (Function.update m.interfaces q (some j) r).map _ = _
  by_cases hr : r = q
  · rw [hr, Function.update_self, hi, Option.map_some, Option.map_some, hdev]
  · rw [Function.update_of_ne hr]

/-- The end of the insertion: the index of the interface and the counter of the socket. -/
theorem countInterface_run {new : InterfacePtr} {i : AwdsInterface} (k : Nat)
    (hi : m.interfaces new = some i) :
    m.countInterface sk new k = .ok ((m.setIface new (some { i with index := k })).setSock sk
      { m.socks sk with ifcount := (m.socks sk).ifcount + 1 }, k) := by
  unfold countInterface
  rw [iface_eq_ok.mpr hi]
  rfl

/-- The insertion into an empty list. -/
theorem Inserted.first {new : InterfacePtr} {i : AwdsInterface}
    (hi : m.interfaces new = some i) (hnext : i.next = none) (hprev : i.prev = none) :
    Inserted m ((m.setIface new (some { i with index := 0 })).setSock sk
      { m.socks sk with interf := some new, ifcount := (m.socks sk).ifcount + 1 }) sk [] new where
  frame := rfl
  others q _ hq := Function.update_of_ne hq _ _
  devs q := devAt_setIface (j := { i with index := 0 }) hi rfl q
  socks s hs := Function.update_of_ne hs _ _
  count := by
    show (Function.update m.socks sk _ sk).ifcount = _
    rw [Function.update_self]
  links := by
    refine ⟨?_, _, Function.update_self _ _ _, hprev, hnext⟩
    show (Function.update m.socks sk _ sk).interf = _
    rw [Function.update_self]

/-- The insertion behind the interface `last`. -/
theorem Inserted.behind {last new : InterfacePtr} {l i : AwdsInterface} {k : Nat}
    (hlinks : Links m (m.socks sk).interf (ps ++ [last])) (hnodup : (ps ++ [last]).Nodup)
    (hnew : new ∉ ps ++ [last]) (hl : m.interfaces last = some l)
    (hi : m.interfaces new = some i) (hnext : i.next = none) :
    Inserted m ((((m.setIface last (some { l with next := some new })).setIface new
      (some { i with prev := some last })).setIface new
      (some { i with prev := some last, index := k })).setSock sk
      { m.socks sk with ifcount := (m.socks sk).ifcount + 1 }) sk (ps ++ [last]) new := by
  -- The last interface gets the new one behind it, and the new one the last one in front of it.
  obtain ⟨hnps, hnlast⟩ : new ∉ ps ∧ new ≠ last := by simpa using hnew
  obtain ⟨-, -, hlps⟩ := List.nodup_append.mp hnodup
  let m1 := m.setIface last (some { l with next := some new })
  let m2 := m1.setIface new (some { i with prev := some last })
  have hi1 : m1.interfaces new = some i := (Function.update_of_ne hnlast _ _).trans hi
  have hi2 : m2.interfaces new = some { i with prev := some last } := Function.update_self _ _ _
  -- The two writes to the new interface touch no other one.
  have hheap : ∀ q, q ≠ new → (m2.setIface new
      (some { i with prev := some last, index := k })).interfaces q = m1.interfaces q := by
    intro q hq
    show Function.update (Function.update m1.interfaces new _) new _ q = _
    rw [Function.update_of_ne hq, Function.update_of_ne hq]
  constructor
  · rfl
  · intro q hq hqn
    have hql : q ≠ last := fun hc => hq (by simp [hc])
    exact (hheap q hqn).trans (Function.update_of_ne hql _ _)
  · intro q
    show devAt (m2.setIface new _) q = _
    rw [devAt_setIface (j := { i with prev := some last, index := k }) hi2 rfl,
      devAt_setIface (j := { i with prev := some last }) hi1 rfl,
      devAt_setIface (j := { l with next := some new }) hl rfl]
  · intro s hs
    exact Function.update_of_ne hs _ _
  · show (Function.update m.socks sk _ sk).ifcount = _
    rw [Function.update_self]
  · show Chain _ _ _ none (Function.update m.socks sk _ sk).interf _
    rw [Function.update_self]
    -- The list grows at its end.
    refine Chain.snoc (l := { l with next := some new })
      (n := { i with prev := some last, index := k }) hlinks hnodup (fun q hq => ?_) ?_ rfl
      (fun o ho => ?_) (Function.update_self _ _ _) rfl hnext
    · have hqn : q ≠ new := fun hc => hnps (hc ▸ hq)
      have hql : q ≠ last := hlps q hq last (by simp)
      exact (hheap q hqn).trans (Function.update_of_ne hql _ _)
    · exact (hheap last (Ne.symm hnlast)).trans (Function.update_self _ _ _)
    · rw [hl] at ho
      cases ho
      rfl

/-- The insertion of a new interface returns the number of the interface in front of it, and 0
for the first one. -/
theorem awdsAddInterfaceLocked_run {new : InterfacePtr} {inst : AwdsInstance} {i : AwdsInterface}
    (hinst : m.instances p = some inst) (hsock : inst.sock = some sk)
    (hheld : inst.locked = true) (hlinks : Links m (m.socks sk).interf ps) (hnodup : ps.Nodup)
    (hlen : ps.length ≤ m.nextPtr) (hi : m.interfaces new = some i) (hnext : i.next = none)
    (hprev : i.prev = none) (hnew : new ∉ ps) :
    ∃ m', m.awdsAddInterfaceLocked p new = .ok (m', ((ps.length - 1 : Nat) : Int)) ∧
      Inserted m m' sk ps new := by
  unfold awdsAddInterfaceLocked
  rw [inst_eq_ok.mpr hinst, except_bind_ok, if_neg (by simp [hheld]), sockOf_run hinst hsock,
    except_bind_ok]
  -- The list is empty, or it has a last interface.
  rcases List.eq_nil_or_concat' ps with rfl | ⟨qs, last, rfl⟩
  · have hfirst : (m.socks sk).interf = none := hlinks
    refine ⟨_, ?_, Inserted.first hi hnext hprev⟩
    rw [hfirst]
    show countInterface (m.setSock sk { m.socks sk with interf := some new }) sk new 0 = _
    rw [countInterface_run (m := m.setSock sk _) (i := i) 0 hi]
    show Except.ok (_, _) = Except.ok (_, _)
    simp only [setSock, setIface, Function.update_idem, Function.update_self]
    rfl
  · obtain ⟨first, hfirst, hmem⟩ :
        ∃ first, (m.socks sk).interf = some first ∧ first ∈ qs ++ [last] := by
      rw [hlinks.first_eq]
      cases qs <;> exact ⟨_, rfl, by simp⟩
    -- The code asks first whether the new interface is in the list already.
    have hne : first ≠ new := fun hc => hnew (hc ▸ hmem)
    obtain ⟨l, hl⟩ := hlinks.live (p := last) (by simp)
    have hnlast : new ≠ last := fun hc => hnew (by simp [hc])
    -- The loop ends at the last interface, with the number of those in front of it.
    have hlast : m.lastInterface new (m.nextPtr + 1) first 0 = .ok (some (last, qs.length)) := by
      rw [hfirst] at hlinks
      rw [lastInterface_run hlinks (fun hc => hnew (by simp [hc])), Nat.zero_add]
      rw [List.length_append, List.length_singleton] at hlen
      omega
    have hi1 : (m.setIface last (some { l with next := some new })).interfaces new = some i :=
      (Function.update_of_ne hnlast _ _).trans hi
    refine ⟨_, ?_, Inserted.behind (k := qs.length) hlinks hnodup hnew hl hi hnext⟩
    rw [hfirst]
    show (if first = new then _ else _) = _
    rw [if_neg hne, hlast, except_bind_ok]
    show (do
      let l ← m.iface last
      let m := m.setIface last (some { l with next := some new })
      let i ← m.iface new
      let m := m.setIface new (some { i with prev := some last })
      m.countInterface sk new qs.length) = _
    rw [iface_eq_ok.mpr hl, except_bind_ok]
    show (do
      let i ← (m.setIface last (some { l with next := some new })).iface new
      let m := (m.setIface last (some { l with next := some new })).setIface new
        (some { i with prev := some last })
      m.countInterface sk new qs.length) = _
    rw [iface_eq_ok.mpr hi1, except_bind_ok,
      countInterface_run (i := { i with prev := some last }) _ (Function.update_self _ _ _),
      List.length_append, List.length_singleton, Nat.add_sub_cancel]
    rfl

/-- The same with the lock around it. -/
theorem Attached.addInterface {new : InterfacePtr} {i : AwdsInterface} (h : Attached m p sk ps)
    (hi : m.interfaces new = some i) (hnext : i.next = none) (hprev : i.prev = none)
    (hnew : new ∉ ps) :
    ∃ m', m.awdsAddInterface p new = .ok (m', ((ps.length - 1 : Nat) : Int)) ∧
      Inserted m m' sk ps new := by
  -- The lock of the instance is taken, and given back behind the insertion.
  obtain ⟨inst, hinst, hsock, hfree⟩ := h.inst
  let m1 := m.setInst p (some { inst with locked := true })
  have hlock : m.lockInst p = .ok m1 := lockInst_eq_ok.mpr ⟨inst, hinst, hfree, rfl⟩
  have hinst1 : m1.instances p = some { inst with locked := true } := Function.update_self _ _ _
  obtain ⟨m2, hrun, hins⟩ := awdsAddInterfaceLocked_run (m := m1) hinst1 hsock rfl h.links
    h.nodup h.length_le hi hnext hprev hnew
  have hinst2 : m2.instances p = some { inst with locked := true } := by
    rw [hins.frame]
    exact hinst1
  have hsame : ({ inst with locked := false } : AwdsInstance) = inst := by rw [← hfree]
  have hunlock : m2.unlockInst p = .ok (m2.setInst p (some inst)) :=
    unlockInst_eq_ok.mpr ⟨_, hinst2, rfl, by rw [hsame]⟩
  refine ⟨m2.setInst p (some inst), ?_, ?_, hins.others, hins.devs, hins.socks,
    hins.count, hins.links⟩
  · unfold awdsAddInterface
    rw [hlock, except_bind_ok, hrun, except_bind_ok]
    show (do
      let m ← m2.unlockInst p
      Except.ok (m, ((ps.length - 1 : Nat) : Int))) = _
    rw [hunlock]
    rfl
  · show m2.setInst p (some inst) = { m with interfaces := m2.interfaces, socks := m2.socks }
    -- Locking and unlocking cancel out.
    have hback : m1.setInst p (some inst) = m := setInst_twice hinst
    calc m2.setInst p (some inst)
        = ({ m1 with interfaces := m2.interfaces, socks := m2.socks }).setInst p (some inst) :=
          congrArg (fun m : AwdsModule => m.setInst p (some inst)) hins.frame
      _ = { m1.setInst p (some inst) with interfaces := m2.interfaces, socks := m2.socks } := rfl
      _ = { m with interfaces := m2.interfaces, socks := m2.socks } := by rw [hback]

/-! ### Creating an interface -/

/-- Taking a reference to a device and giving it back changes nothing. -/
theorem devPut_devHold (m : AwdsModule) (dev : DevPtr) : (m.devHold dev).devPut dev = m := by
  unfold devHold devPut
  simp only [Function.update_idem, Function.update_self, Int.add_sub_cancel,
    Function.update_eq_self]

/-- The device exists, the socket is not bound to it yet and there is memory for an
interface. -/
structure Adds (net : Net) (mem : Memory) (m : AwdsModule) (ps : List InterfacePtr)
    (addr : SockaddrAwds) (dev : DevPtr) : Prop where
  exists_dev : net.devGetByIndex addr.saIfindex = some dev
  new_dev : some dev ∉ ps.map (devAt m)
  ifaceOk : mem.ifaceOk = true
  addrOk : mem.addrOk = true

/-- What a `bind` to the device `dev` does to a socket with the interfaces `ps`. -/
structure Appended (m m' : AwdsModule) (sk : SockPtr) (ps : List InterfacePtr) (dev : DevPtr) :
    Prop where
  frame : m' = { m with
    interfaces := m'.interfaces
    socks := m'.socks
    nextPtr := m.nextPtr + 1
    devRefs := (m.devHold dev).devRefs }
  others : ∀ q, q ∉ ps → q ≠ m.nextPtr → m'.interfaces q = m.interfaces q
  socks : ∀ s, s ≠ sk → m'.socks s = m.socks s
  count : (m'.socks sk).ifcount = (m.socks sk).ifcount + 1
  links : Links m' (m'.socks sk).interf (ps ++ [m.nextPtr])
  devs : (ps ++ [m.nextPtr]).map (devAt m') = ps.map (devAt m) ++ [some dev]

section
variable (h : Appended m m' sk ps dev)
include h

/-- What an appended interface leaves alone is read off its frame. -/
theorem Appended.instances : m'.instances = m.instances := by rw [h.frame]

/-- The slots stay. -/
theorem Appended.slots : m'.awdsInstances = m.awdsInstances := by rw [h.frame]

/-- The top of the slots stays. -/
theorem Appended.top : m'.awdsInstanceIndex = m.awdsInstanceIndex := by rw [h.frame]

/-- The mutex stays. -/
theorem Appended.mutex : m'.mutex = m.mutex := by rw [h.frame]

/-- The interface takes one address. -/
theorem Appended.nextPtr : m'.nextPtr = m.nextPtr + 1 := by rw [h.frame]

/-- It holds one reference to its device. -/
theorem Appended.refs : m'.devRefs = (m.devHold dev).devRefs := by rw [h.frame]

/-- The socket has one more interface. -/
theorem Appended.attached (ha : Attached m p sk ps) : Attached m' p sk (ps ++ [m.nextPtr]) where
  inst := by
    rw [h.instances]
    exact ha.inst
  links := h.links
  nodup := by
    refine List.nodup_append.mpr ⟨ha.nodup, List.nodup_singleton _, fun q hq r hr => ?_⟩
    rw [List.mem_singleton.mp hr]
    exact Nat.ne_of_lt (ha.old q hq)
  old q hq := by
    rw [h.nextPtr]
    rcases List.mem_append.mp hq with hq | hq
    · exact Nat.lt_succ_of_lt (ha.old q hq)
    · rw [List.mem_singleton.mp hq]
      exact Nat.lt_succ_self _

end

/-- A reference to a device does not touch the lists. -/
theorem Attached.devHold (h : Attached m p sk ps) (dev : DevPtr) :
    Attached (m.devHold dev) p sk ps :=
  ⟨h.inst, h.links, h.nodup, h.old⟩

/-- The state behind the allocation of an interface. -/
def withNewInterface (m : AwdsModule) (dev : DevPtr) (addr : SockaddrAwds) : AwdsModule :=
  setIface { m.devHold dev with nextPtr := m.nextPtr + 1 } m.nextPtr
    (some { index := addr.saIfindex, dev := dev, addr := addr })

/-- The socket is bound to the device already. -/
theorem Attached.createInterface_again (h : Attached m p sk ps) {net : Net} {addr : SockaddrAwds}
    (hdev : net.devGetByIndex addr.saIfindex = some dev) (hbound : some dev ∈ ps.map (devAt m))
    (mem : Memory) : m.awdsCreateInterface net mem p addr = .ok (m, -eaddrinuse) := by
  unfold awdsCreateInterface
  rw [hdev]
  show (do
    let x ← (m.devHold dev).awdsFindInterface p dev
    if x.2.isSome then Except.ok (x.1.devPut dev, -eaddrinuse) else _) = _
  rw [(h.devHold dev).findInterface dev, except_bind_ok]
  show (if (ps.find? fun q => devAt m q = some dev).isSome then
    Except.ok ((m.devHold dev).devPut dev, -eaddrinuse) else _) = _
  rw [if_pos (find_isSome_iff.mpr hbound), devPut_devHold]

/-- The run behind the lookup of a device that the socket is not bound to. -/
theorem Attached.createInterface_eq (h : Attached m p sk ps) {net : Net} {addr : SockaddrAwds}
    (hdev : net.devGetByIndex addr.saIfindex = some dev)
    (hnew : some dev ∉ ps.map (devAt m)) (mem : Memory) :
    m.awdsCreateInterface net mem p addr =
      if !mem.ifaceOk then .ok (m, -enobufs)
      else if !mem.addrOk then .ok ({ m with nextPtr := m.nextPtr + 1 }, -enobufs)
      else (do
        let (m', ret) ← (withNewInterface m dev addr).awdsAddInterface p m.nextPtr
        if ret = 0 then .ok (m', ret)
        else do
          let (m', _) ← m'.awdsReleaseInterface p m.nextPtr
          .ok (m', ret)) := by
  unfold awdsCreateInterface
  -- The device is found, and the socket has no interface on it.
  rw [hdev]
  show (do
    let x ← (m.devHold dev).awdsFindInterface p dev
    if x.2.isSome then _ else if !mem.ifaceOk then _ else _) = _
  rw [(h.devHold dev).findInterface dev, except_bind_ok]
  -- So the reference that was taken is kept only if there is memory.
  show (if (ps.find? fun q => devAt m q = some dev).isSome then _
    else if !mem.ifaceOk then Except.ok ((m.devHold dev).devPut dev, -enobufs)
    else if !mem.addrOk then
      Except.ok ({ (m.devHold dev).devPut dev with nextPtr := m.nextPtr + 1 }, -enobufs)
    else _) = _
  rw [if_neg (mt find_isSome_iff.mp hnew), devPut_devHold]
  rfl

/-- A `bind` that adds nothing only hands out an address. -/
theorem Attached.createInterface_rejected (h : Attached m p sk ps) {net : Net} {mem : Memory}
    {addr : SockaddrAwds} (hno : ∀ dev, ¬ Adds net mem m ps addr dev) :
    ∃ ret k, ret ≠ 0 ∧ m.nextPtr ≤ k ∧
      m.awdsCreateInterface net mem p addr = .ok ({ m with nextPtr := k }, ret) := by
  cases hdev : net.devGetByIndex addr.saIfindex with
  | none =>
    refine ⟨-eawdsInval, m.nextPtr, by decide, Nat.le_refl _, ?_⟩
    unfold awdsCreateInterface
    rw [hdev]
  | some dev =>
    by_cases hbound : some dev ∈ ps.map (devAt m)
    · exact ⟨-eaddrinuse, m.nextPtr, by decide, Nat.le_refl _,
        h.createInterface_again hdev hbound mem⟩
    · rw [h.createInterface_eq hdev hbound mem]
      cases hiface : mem.ifaceOk with
      | false => exact ⟨-enobufs, m.nextPtr, by decide, Nat.le_refl _, rfl⟩
      | true =>
        cases haddr : mem.addrOk with
        | false => exact ⟨-enobufs, m.nextPtr + 1, by decide, Nat.le_succ _, rfl⟩
        | true => exact absurd ⟨hdev, hbound, hiface, haddr⟩ (hno dev)

/-- The interface of a device that the socket is not bound to is linked behind the others. -/
theorem Attached.addsInterface (h : Attached m p sk ps) {net : Net} {mem : Memory}
    {addr : SockaddrAwds} (hadds : Adds net mem m ps addr dev) :
    ∃ m', Appended m m' sk ps dev ∧
      m.awdsCreateInterface net mem p addr =
        if ps.length ≤ 1 then .ok (m', 0)
        else (do
          let (m', _) ← m'.awdsReleaseInterface p m.nextPtr
          .ok (m', ((ps.length - 1 : Nat) : Int))) := by
  -- The new interface is at an address behind all others.
  have hnew : m.nextPtr ∉ ps := fun hc => Nat.lt_irrefl _ (h.old _ hc)
  let i : AwdsInterface := { index := addr.saIfindex, dev := dev, addr := addr }
  let m1 := withNewInterface m dev addr
  have hi : m1.interfaces m.nextPtr = some i := Function.update_self _ _ _
  have hold : ∀ q ∈ ps, m1.interfaces q = m.interfaces q := fun q hq => by
    have hne : q ≠ m.nextPtr := fun hc => hnew (hc ▸ hq)
    exact Function.update_of_ne hne _ _
  have h1 : Attached m1 p sk ps :=
    ⟨h.inst, h.links.congr hold, h.nodup, fun q hq => Nat.lt_succ_of_lt (h.old q hq)⟩
  obtain ⟨m2, hrun, hins⟩ := h1.addInterface hi rfl rfl hnew
  refine ⟨m2, ⟨hins.frame, fun q hq hqn => ?_, hins.socks, hins.count, hins.links, ?_⟩,
    ?_⟩
  · exact (hins.others q hq hqn).trans (Function.update_of_ne hqn _ _)
  · rw [List.map_append, List.map_singleton, hins.devs]
    have hdevNew : devAt m1 m.nextPtr = some dev := by
      unfold devAt
      rw [hi]
      rfl
    rw [hdevNew]
    refine congrArg (· ++ [some dev]) (List.map_congr_left fun q hq => ?_)
    rw [hins.devs]
    unfold devAt
    rw [hold q hq]
  · rw [h.createInterface_eq hadds.exists_dev hadds.new_dev mem, if_neg (by simp [hadds.ifaceOk]),
      if_neg (by simp [hadds.addrOk])]
    show (do
      let (m', ret) ← m1.awdsAddInterface p m.nextPtr
      if ret = 0 then Except.ok (m', ret)
      else do
        let (m', _) ← m'.awdsReleaseInterface p m.nextPtr
        Except.ok (m', ret)) = _
    rw [hrun, except_bind_ok]
    -- The value of the insertion is the index of the new interface less one, cut off at 0, and 0
    -- stands for success.
    show (if ((ps.length - 1 : Nat) : Int) = 0 then _ else _) = _
    by_cases hshort : ps.length ≤ 1
    · have hzero : ((ps.length - 1 : Nat) : Int) = 0 := by omega
      rw [if_pos hshort, if_pos hzero, hzero]
    · rw [if_neg hshort, if_neg (by omega)]

/-- A third interface makes the `bind` fail. -/
theorem Attached.createInterface_third (h : Attached m p sk ps) {net : Net} {mem : Memory}
    {addr : SockaddrAwds} (hadds : Adds net mem m ps addr dev) (hlong : 2 ≤ ps.length) {ret : Int}
    (hrun : m.awdsCreateInterface net mem p addr = .ok (m', ret)) : ret ≠ 0 := by
  obtain ⟨m1, -, heq⟩ := h.addsInterface hadds
  rw [heq, if_neg (by omega)] at hrun
  obtain ⟨⟨m2, r⟩, -, hrun⟩ := bind_eq_ok.mp hrun
  cases hrun
  omega

/-! ### Releasing the interfaces -/

/-- What the release of the first interface `q` does. The interfaces `ps` behind it stay. -/
structure Detached (m m' : AwdsModule) (sk : SockPtr) (q : InterfacePtr)
    (ps : List InterfacePtr) : Prop where
  gone : m'.interfaces q = none
  devs : ∀ r, r ≠ q → devAt m' r = devAt m r
  others : ∀ r, r ∉ q :: ps → m'.interfaces r = m.interfaces r
  socks : ∀ s, s ≠ sk → m'.socks s = m.socks s
  interf : (m'.socks sk).interf = (m.socks sk).interf
  count : (m'.socks sk).ifcount = (m.socks sk).ifcount - 1
  refs : ∀ dev, devAt m q = some dev → m'.devRefs = (m.devPut dev).devRefs

/-- The interface behind the first one becomes the first one. -/
theorem skipPrev_run {q : InterfacePtr} {i : AwdsInterface}
    (hrest : Chain AwdsInterface.next AwdsInterface.prev m.interfaces (some q) i.next ps) :
    ∃ heap, m.skipPrev i = .ok { m with interfaces := heap } ∧
      (∀ r, r ∉ ps → heap r = m.interfaces r) ∧
      ∀ r, (heap r).map (·.dev) = (m.interfaces r).map (·.dev) := by
  unfold skipPrev
  cases ps with
  | nil =>
    have hnext : i.next = none := hrest
    rw [hnext]
    exact ⟨m.interfaces, rfl, fun _ _ => rfl, fun _ => rfl⟩
  | cons r ps =>
    obtain ⟨hnext, j, hj, -, -⟩ := hrest
    rw [hnext]
    refine ⟨Function.update m.interfaces r (some { j with prev := i.prev }), ?_, fun s hs => ?_,
      devAt_setIface (j := { j with prev := i.prev }) hj rfl⟩
    · show (do
        let j ← m.iface r
        Except.ok (m.setIface r (some { j with prev := i.prev }))) = _
      rw [iface_eq_ok.mpr hj]
      rfl
    · have hne : s ≠ r := fun hc => hs (by simp [hc])
      exact Function.update_of_ne hne _ _

/-- The whole release of the first interface: it is taken out of its list, its device loses a
reference, and its memory is freed. -/
theorem awdsDelInterfaceLocked_run {q : InterfacePtr} {inst : AwdsInstance}
    (hinst : m.instances p = some inst) (hsock : inst.sock = some sk)
    (hheld : inst.locked = true) (hlinks : Links m (some q) (q :: ps)) :
    ∃ m', m.awdsDelInterfaceLocked p q = .ok (m', 0) ∧
      m' = { m with interfaces := m'.interfaces, socks := m'.socks, devRefs := m'.devRefs } ∧
      Detached m m' sk q ps := by
  -- The first interface has no predecessor, so only the one behind it is rewired.
  obtain ⟨-, i, hi, hprev, hrest⟩ := hlinks
  obtain ⟨heap, hskip, hothers, hdevs⟩ := skipPrev_run hrest
  let m2 := (devPut { m with interfaces := heap } i.dev).setIface q none
  refine ⟨m2.setSock sk { m.socks sk with ifcount := (m.socks sk).ifcount - 1 }, ?_, rfl,
    Function.update_self _ _ _, fun r hr => ?_, fun r hr => ?_,
    fun s hs => Function.update_of_ne hs _ _, ?_, ?_, fun dev hdev => ?_⟩
  · unfold awdsDelInterfaceLocked skipNext
    rw [inst_eq_ok.mpr hinst, except_bind_ok, if_neg (by simp [hheld]), iface_eq_ok.mpr hi,
      except_bind_ok, hprev]
    show (do
      let m ← m.skipPrev i
      let m := (m.devPut i.dev).setIface q none
      let sk ← m.sockOf p
      Except.ok (m.setSock sk { m.socks sk with ifcount := (m.socks sk).ifcount - 1 },
        (0 : Int))) = _
    rw [hskip, except_bind_ok]
    show (do
      let sk ← m2.sockOf p
      Except.ok (m2.setSock sk { m2.socks sk with ifcount := (m2.socks sk).ifcount - 1 },
        (0 : Int))) = _
    rw [sockOf_run (m := m2) hinst hsock]
    rfl
  · -- The other interfaces keep their devices.
    refine Eq.trans ?_ (hdevs r)
    exact congrArg _ (Function.update_of_ne hr _ _)
  · obtain ⟨hrq, hrps⟩ : r ≠ q ∧ r ∉ ps := by simpa using hr
    exact (Function.update_of_ne hrq _ _).trans (hothers r hrps)
  · show (Function.update m.socks sk _ sk).interf = _
    rw [Function.update_self]
  · show (Function.update m.socks sk _ sk).ifcount = _
    rw [Function.update_self]
  · have heq : i.dev = dev := by
      unfold devAt at hdev
      rw [hi] at hdev
      exact Option.some.inj hdev
    show Function.update m.devRefs i.dev _ = Function.update m.devRefs dev _
    rw [heq]

/-- `awds_release_interface` on the first interface. The instance stays locked. -/
theorem awdsReleaseInterface_run {q : InterfacePtr} {inst : AwdsInstance}
    (hinst : m.instances p = some inst) (hsock : inst.sock = some sk)
    (hfree : inst.locked = false) (hlinks : Links m (some q) (q :: ps)) :
    ∃ m', m.awdsReleaseInterface p q = .ok (m', 0) ∧
      m' = { m with
        instances := Function.update m.instances p (some { inst with locked := true })
        interfaces := m'.interfaces
        socks := m'.socks
        devRefs := m'.devRefs } ∧
      Detached m m' sk q ps := by
  let m1 := m.setInst p (some { inst with locked := true })
  have hlock : m.lockInst p = .ok m1 := lockInst_eq_ok.mpr ⟨inst, hinst, hfree, rfl⟩
  obtain ⟨m2, hrun, hframe, hdet⟩ := awdsDelInterfaceLocked_run (m := m1)
    (Function.update_self _ _ _) hsock rfl hlinks
  refine ⟨m2, ?_, hframe, hdet.gone, hdet.devs, hdet.others, hdet.socks, hdet.interf, hdet.count,
    hdet.refs⟩
  unfold awdsReleaseInterface
  rw [hlock, except_bind_ok, hrun]
  rfl

/-- An instance that is locked cannot be locked again. -/
theorem awdsReleaseInterface_locked {q : InterfacePtr} {inst : AwdsInstance}
    (hinst : m.instances p = some inst) (hheld : inst.locked = true) :
    m.awdsReleaseInterface p q = .error .deadlock := by
  unfold awdsReleaseInterface lockInst
  rw [inst_eq_ok.mpr hinst, except_bind_ok, if_pos hheld]
  rfl

/-- The loop of `__awds_release_instance` ends behind the first interface if the freed memory
reads as null there, and otherwise waits for the lock that its first turn has left. -/
theorem releaseLoop_run (stale : InterfacePtr → Option InterfacePtr) {q : InterfacePtr}
    {inst : AwdsInstance} {n : Nat} (hinst : m.instances p = some inst)
    (hsock : inst.sock = some sk) (hfree : inst.locked = false)
    (hlinks : Links m (some q) (q :: ps)) :
    ∃ m', m' = { m with
        instances := Function.update m.instances p (some { inst with locked := true })
        interfaces := m'.interfaces
        socks := m'.socks
        devRefs := m'.devRefs } ∧
      Detached m m' sk q ps ∧
      releaseLoop stale p (n + 2) (some q) m =
        if stale q = none then .ok (m', 0) else .error .deadlock := by
  obtain ⟨m', hrun, hframe, hdet⟩ := awdsReleaseInterface_run hinst hsock hfree hlinks
  refine ⟨m', hframe, hdet, ?_⟩
  -- The loop reads on in the memory that it has just freed.
  have hread : m'.readNext stale q = stale q := by
    unfold readNext
    rw [hdet.gone]
  rw [releaseLoop, hrun, except_bind_ok]
  show (if (0 : Int) ≠ 0 then _ else releaseLoop stale p (n + 1) (m'.readNext stale q) m') = _
  rw [if_neg (by decide), hread]
  cases hstale : stale q with
  | none => rfl
  -- There is something else than a zero. The next pass wants the lock of the instance, which is
  -- still held.
  | some r =>
    have hheld : m'.instances p = some { inst with locked := true } := by
      rw [hframe]
      exact Function.update_self _ _ _
    rw [releaseLoop, awdsReleaseInterface_locked hheld rfl, if_neg (by simp)]
    rfl

/-- What the release of an instance in the slot `i` does, whose first interface is `q`. The
interfaces `ps` behind it stay. -/
structure Released (m m' : AwdsModule) (p : InstancePtr) (sk : SockPtr) (q : InterfacePtr)
    (ps : List InterfacePtr) (i : Nat) : Prop where
  frame : m' = { m with
    instances := Function.update m.instances p none
    interfaces := m'.interfaces
    socks := m'.socks
    devRefs := m'.devRefs
    awdsInstances := Function.update m.awdsInstances i none
    awdsInstanceIndex := m.awdsInstanceIndex - 1 }
  detached : Detached (m.setSock sk { m.socks sk with interf := none }) m' sk q ps

/-- The release of an instance. With a zero in the freed memory of its first interface it returns.
Otherwise it takes a lock that it holds already. -/
theorem Attached.releaseInstance {q : InterfacePtr} (h : Attached m p sk (q :: ps))
    (hmutex : m.mutex = true) {i : Nat} (hi : Used m i) (hp : m.awdsInstances i = some p)
    (honly : ∀ j, m.awdsInstances j = some p → j = i)
    (stale : InterfacePtr → Option InterfacePtr) :
    ∃ m', Released m m' p sk q ps i ∧
      m.awdsReleaseInstanceLocked stale p =
        if stale q = none then .ok (m', 0) else .error .deadlock := by
  obtain ⟨inst, hinst, hsock, hfree⟩ := h.inst
  have hfirst : (m.socks sk).interf = some q := h.links.first_eq
  let m1 := m.setSock sk { m.socks sk with interf := none }
  have hlinks : Links m1 (some q) (q :: ps) := hfirst ▸ h.links
  obtain ⟨m2, hframe, hdet, hrun⟩ := releaseLoop_run (m := m1) stale (n := m.nextPtr)
    hinst hsock hfree hlinks
  -- Behind the loop the instance is still locked.
  have hinst2 : m2.instances p = some { inst with locked := true } := by
    rw [hframe]
    exact Function.update_self _ _ _
  have hmutex2 : m2.mutex = true := (congrArg mutex hframe).trans hmutex
  have hslots2 : m2.awdsInstances = m.awdsInstances := by
    rw [hframe]
    rfl
  have htop2 : m2.awdsInstanceIndex = m.awdsInstanceIndex := by
    rw [hframe]
    rfl
  -- The instance is found in its slot.
  have hslot : m2.slotOf p (m2.awdsInstanceIndex + 1).toNat 0 = some i := by
    refine slotOf_run (by rw [hslots2, hp]) (by rw [hslots2]; exact honly) (Nat.zero_le _) ?_
    unfold Used at hi
    rw [htop2]
    omega
  have hdel : m2.awdsDelInstanceLocked p = .ok ({ m2.setInst p
      (some { inst with locked := true, index := -1, sock := none }) with
        awdsInstances := Function.update m2.awdsInstances i none
        awdsInstanceIndex := m2.awdsInstanceIndex - 1 }, 0) := by
    unfold awdsDelInstanceLocked
    rw [inst_eq_ok.mpr hinst2, except_bind_ok, if_neg (by simp [hmutex2]), hslot]
    rfl
  refine ⟨withoutInstance m2 p i, ⟨?_, hdet.gone, hdet.devs, hdet.others, hdet.socks, hdet.interf,
    hdet.count, hdet.refs⟩, ?_⟩
  · -- All changes are in the fields that the frame names.
    refine (congrArg (fun m => withoutInstance m p i) hframe).trans ?_
    unfold withoutInstance setInst
    dsimp only
    rw [Function.update_idem]
    rfl
  · unfold awdsReleaseInstanceLocked
    rw [if_neg (by simp [hmutex]), sockOf_run hinst hsock, except_bind_ok, hfirst]
    show (do
      let (m, ret) ← releaseLoop stale p (m.nextPtr + 2) (some q) m1
      if ret ≠ 0 then Except.ok (m, ret)
      else do
        let (m, ret) ← m.awdsDelInstanceLocked p
        if ret = 0 then Except.ok (m.setInst p none, ret) else Except.ok (m, ret)) = _
    rw [hrun]
    by_cases hstale : stale q = none
    · rw [if_pos hstale, if_pos hstale, except_bind_ok]
      show (do
        let (m, ret) ← m2.awdsDelInstanceLocked p
        if ret = 0 then Except.ok (m.setInst p none, ret) else Except.ok (m, ret)) = _
      rw [hdel, except_bind_ok]
      show Except.ok (_, _) = Except.ok (_, _)
      simp only [withoutInstance, setInst, Function.update_idem]
    · rw [if_neg hstale, if_neg hstale]
      rfl

end

end Awds.Proofs
