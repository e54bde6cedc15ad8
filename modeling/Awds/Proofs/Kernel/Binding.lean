import Awds.Proofs.Kernel.Interfaces

/-!
# `Awds.Proofs.Kernel.Binding`: a socket is bound to devices

A socket that is not bound is bound to one device after another and released. Each `bind` is
expected to return 0 and to make its device findable, and the release is expected to free what
the binds have allocated. `socket_devices` says for how many devices this is so.

The first two binds succeed. The third one links its interface, takes the number of the
interface in front of it for an error and fails. The release frees the first interface only:
`__awds_del_interface` clears the link to the next one before the loop of
`__awds_release_instance` reads it, and the memory that it reads is freed by then. What the
read returns is `stale`.
-/

set_option autoImplicit false

namespace Awds.Proofs

open Awds.Lib Awds.Kernel Awds.Kernel.AwdsModule

/-! ### The socket operations -/

section
variable {m m' : AwdsModule} {p : InstancePtr} {sk : SockPtr} {ps : List InterfacePtr}
  {dev : DevPtr} {net : Net} {mem : Memory} {addr : SockaddrAwds}

/-- The lookup finds a socket behind slots of other sockets. -/
theorem findIndexLoop_found {n i j : Nat} (hle : i ≤ j) (hlt : j < i + n)
    (hj : sockAt m j = some sk)
    (hfront : ∀ k, i ≤ k → k < j → ∃ s, sockAt m k = some s ∧ s ≠ sk) :
    m.findIndexLoop sk n i = .ok j := by
  induction n generalizing i with
  | zero => omega
  | succ n ih =>
    by_cases hij : i = j
    · subst hij
      rw [findIndexLoop_step hj, if_pos rfl]
    · obtain ⟨s, hs, hne⟩ := hfront i (Nat.le_refl _) (by omega)
      rw [findIndexLoop_step hs, if_neg hne]
      exact ih (by omega) (by omega) fun k hk => hfront k (by omega)

/-- The lookup of a socket in the slot `j` that has no empty slot in front of it. -/
theorem lookup_found (hmutex : m.mutex = true) {j : Nat} (hused : Used m j)
    (hp : m.awdsInstances j = some p) (hj : sockAt m j = some sk)
    (hfront : ∀ k, k < j → ∃ s, sockAt m k = some s ∧ s ≠ sk) :
    m.awdsFindInstanceBySockLocked sk = .ok (some p) := by
  have hne : (j : Int) ≠ -eawdsMissing := by
    show (j : Int) ≠ -5
    omega
  unfold Used at hused
  unfold awdsFindInstanceBySockLocked awdsFindInstanceIndexBySockLocked
  rw [if_neg (by simp [hmutex]), if_neg (by simp [hmutex]),
    findIndexLoop_found (Nat.zero_le j) (by omega) hj fun k _ => hfront k, except_bind_ok,
    if_neg hne, Int.toNat_natCast, hp]

/-- The lookup of a socket that is in no slot, if no slot is empty. -/
theorem lookup_missing (hmutex : m.mutex = true)
    (hall : ∀ k, Used m k → ∃ s, sockAt m k = some s ∧ s ≠ sk) :
    m.awdsFindInstanceBySockLocked sk = .ok none := by
  have hused : ∀ k : Nat, k < 0 + (m.awdsInstanceIndex + 1).toNat → Used m k := fun k hk => by
    unfold Used
    omega
  have hloop : m.findIndexLoop sk (m.awdsInstanceIndex + 1).toNat 0 = .ok (-eawdsMissing) := by
    rcases findIndexLoop_run (m := m) sk (n := (m.awdsInstanceIndex + 1).toNat) (i := 0)
      (fun k _ hk => by
        obtain ⟨s, hs, -⟩ := hall k (hused k hk)
        rw [hs]
        rfl) with ⟨k, -, hk, hsk, -⟩ | ⟨-, hrun⟩
    · obtain ⟨s, hs, hne⟩ := hall k (hused k hk)
      rw [hsk] at hs
      exact absurd (Option.some.inj hs).symm hne
    · exact hrun
  unfold awdsFindInstanceBySockLocked awdsFindInstanceIndexBySockLocked
  rw [if_neg (by simp [hmutex]), if_neg (by simp [hmutex]), hloop]
  rfl

/-- A `bind` between the lookup and the unlocking. -/
theorem awdsSocketBind_run (found : Option InstancePtr) (hmutex : m.mutex = false)
    (hfound : { m with mutex := true }.awdsFindInstanceBySockLocked sk = .ok found) {ret : Int}
    (hrun : { m with mutex := true }.bindInstance net mem sk addr found = .ok (m', ret))
    (hmutex' : m'.mutex = true) :
    m.awdsSocketBind net mem sk addr = .ok ({ m' with mutex := false }, ret) := by
  unfold awdsSocketBind
  rw [lockMutex_eq_ok.mpr ⟨hmutex, rfl⟩, except_bind_ok, hfound, except_bind_ok, hrun,
    except_bind_ok]
  show (do
    let m ← m'.unlockMutex
    Except.ok (m, ret)) = _
  rw [unlockMutex_eq_ok.mpr ⟨hmutex', rfl⟩]
  rfl

/-- A `release` between the lookup and the unlocking. -/
theorem awdsSocketRelease_run (found : Option InstancePtr) (hmutex : m.mutex = false)
    (hfound : { m with mutex := true }.awdsFindInstanceBySockLocked sk = .ok found) {ret : Int}
    {stale : InterfacePtr → Option InterfacePtr}
    (hrun : { m with mutex := true }.releaseInstance stale found = .ok (m', ret))
    (hmutex' : m'.mutex = true) :
    m.awdsSocketRelease stale sk = .ok ({ m' with mutex := false }, 0) := by
  unfold awdsSocketRelease
  rw [lockMutex_eq_ok.mpr ⟨hmutex, rfl⟩, except_bind_ok, hfound, except_bind_ok, hrun,
    except_bind_ok]
  show (do
    let m ← m'.unlockMutex
    Except.ok (m, (0 : Int))) = _
  rw [unlockMutex_eq_ok.mpr ⟨hmutex', rfl⟩]
  rfl

/-- A new instance has no interfaces. -/
theorem attached_withAllocation (m : AwdsModule) (sk : SockPtr) :
    Attached (withAllocation m sk) m.nextPtr sk [] where
  inst := ⟨_, Function.update_self _ _ _, rfl, rfl⟩
  links := by
    show (Function.update m.socks sk _ sk).interf = none
    rw [Function.update_self]
  nodup := List.nodup_nil
  old _ hq := by cases hq

/-- The first `bind` of a socket to a device that exists. -/
theorem createInstance_added (hmutex : m.mutex = true)
    (hroom : m.awdsInstanceIndex < maxAwdsIndex) (hinst : mem.instOk = true)
    (hnew : ∀ i, m.awdsInstances i ≠ some m.nextPtr)
    (hadds : Adds net mem (withAllocation m sk) [] addr dev) :
    ∃ m', Appended (withAllocation m sk) m' sk [] dev ∧
      m.awdsCreateInstanceLocked net mem sk addr =
        .ok (withInstance m' m.nextPtr { sock := some sk }, 0) := by
  -- Inside of the instance there is nothing yet, so its first interface is simply added.
  obtain ⟨m', happ, hrun⟩ := (attached_withAllocation m sk).addsInterface hadds
  refine ⟨m', happ, ?_⟩
  unfold awdsCreateInstanceLocked
  rw [if_neg (by omega), if_neg (by simp [hinst])]
  -- With the interface the instance gets a slot.
  show (do
    let x ← (withAllocation m sk).awdsCreateInterface net mem m.nextPtr addr
    if x.2 = 0 then do
      let y ← x.1.awdsAddInstanceLocked m.nextPtr
      Except.ok (y.1, x.2)
    else Except.ok (x.1.setInst m.nextPtr none, x.2)) = _
  rw [hrun, if_pos (by simp), except_bind_ok]
  show (do
    let y ← m'.awdsAddInstanceLocked m.nextPtr
    Except.ok (y.1, (0 : Int))) = _
  have hinst' : m'.instances m.nextPtr = some { sock := some sk } := by
    rw [happ.instances]
    exact Function.update_self _ _ _
  rw [awdsAddInstanceLocked_run (happ.mutex.trans hmutex) (happ.top.trans_lt hroom) hinst'
    (fun i hi => hnew i (by rw [happ.slots] at hi; exact hi))]
  rfl

/-- The first `bind` of a socket that adds nothing: addresses may have been handed out, and the
socket has lost its table. -/
theorem createInstance_rejected (hle : m.awdsInstanceIndex ≤ maxAwdsIndex)
    (hfresh : m.instances m.nextPtr = none)
    (hno : m.awdsInstanceIndex < maxAwdsIndex → mem.instOk = true →
      ∀ dev, ¬ Adds net mem (withAllocation m sk) [] addr dev) :
    ∃ m' ret, ret ≠ 0 ∧ m.awdsCreateInstanceLocked net mem sk addr = .ok (m', ret) ∧
      m' = { m with nextPtr := m'.nextPtr, socks := m'.socks } ∧ m.nextPtr ≤ m'.nextPtr ∧
      ∀ s, s ≠ sk → m'.socks s = m.socks s := by
  unfold awdsCreateInstanceLocked
  -- There is no slot left.
  by_cases hfull : maxAwdsIndex ≤ m.awdsInstanceIndex
  · rw [if_pos hfull, show maxAwdsIndex = m.awdsInstanceIndex from le_antisymm hfull hle]
    exact ⟨m, -enobufs, by decide, rfl, rfl, Nat.le_refl _, fun _ _ => rfl⟩
  rw [if_neg hfull]
  -- There is no memory for the instance.
  cases hinst : mem.instOk with
  | false => exact ⟨m, -enobufs, by decide, rfl, rfl, Nat.le_refl _, fun _ _ => rfl⟩
  | true =>
    -- The interface is refused, and the instance is freed again.
    obtain ⟨ret, k, hret, hk, hrun⟩ := (attached_withAllocation m sk).createInterface_rejected
      (hno (lt_of_not_ge hfull) hinst)
    refine ⟨{ m with nextPtr := k, socks := (withAllocation m sk).socks }, ret, hret, ?_, rfl,
      Nat.le_of_succ_le hk, fun s hs => Function.update_of_ne hs _ _⟩
    rw [if_neg (by simp)]
    show (do
      let x ← (withAllocation m sk).awdsCreateInterface net mem m.nextPtr addr
      if x.2 = 0 then do
        let y ← x.1.awdsAddInstanceLocked m.nextPtr
        Except.ok (y.1, x.2)
      else Except.ok (x.1.setInst m.nextPtr none, x.2)) = _
    rw [hrun, except_bind_ok]
    show (if ret = 0 then _ else
      Except.ok (setInst { withAllocation m sk with nextPtr := k } m.nextPtr none, ret)) = _
    rw [if_neg hret]
    -- Behind that the address of the instance is empty, as it was.
    have hback : Function.update (Function.update m.instances m.nextPtr
        (some { sock := some sk })) m.nextPtr none = m.instances := by
      rw [Function.update_idem, ← hfresh, Function.update_eq_self]
    show Except.ok (({ m with
      instances := Function.update (Function.update m.instances m.nextPtr
        (some { sock := some sk })) m.nextPtr none
      nextPtr := k
      socks := (withAllocation m sk).socks } : AwdsModule), ret) = _
    rw [hback]

end

/-! ### One socket and its devices -/

/-- The device of an address. -/
def deviceOf (net : Net) (addr : SockaddrAwds) : Option DevPtr :=
  net.devGetByIndex addr.saIfindex

/-- A socket that is not bound, in a module that has an instance left. -/
structure Unbound (m : AwdsModule) (bound : Set SockPtr) (sk : SockPtr) : Prop where
  slots : SlotsOk m bound
  unbound : sk ∉ bound
  mutex : m.mutex = false
  room : m.awdsInstanceIndex < maxAwdsIndex
  count : (m.socks sk).ifcount = 0
  fresh : ∀ q, m.nextPtr ≤ q → m.interfaces q = none

/-- The state of the module behind the binds of a socket to the addresses `addrs`, from the
state `m`. The interfaces of the socket are at the addresses `ps`. -/
structure Holds (net : Net) (bound : Set SockPtr) (sk : SockPtr) (m : AwdsModule)
    (addrs : List SockaddrAwds) (ps : List InterfacePtr) (m' : AwdsModule) : Prop where
  slots : SlotsOk m' (insert sk bound)
  mutex : m'.mutex = false
  slot : ∃ i, Used m' i ∧ m'.awdsInstances i = some m.nextPtr
  attached : Attached m' m.nextPtr sk ps
  devs : ps.map (devAt m') = addrs.map (deviceOf net)
  count : (m'.socks sk).ifcount = addrs.length
  others : ∀ q, q ∉ ps → m'.interfaces q = m.interfaces q
  refs : ∀ d, m'.devRefs d = m.devRefs d + (addrs.map (deviceOf net)).count (some d)

section
variable {m m' : AwdsModule} {bound : Set SockPtr} {sk : SockPtr} {net : Net}
  {addrs : List SockaddrAwds} {ps : List InterfacePtr} {addr : SockaddrAwds} {dev : DevPtr}

/-- A reference to one device adds one to its count and nothing to the others. -/
theorem devHold_refs (m : AwdsModule) (dev d : DevPtr) :
    (m.devHold dev).devRefs d = m.devRefs d + [some dev].count (some d) := by
  show Function.update m.devRefs dev _ d = _
  by_cases hd : d = dev
  · rw [hd, Function.update_self, List.count_singleton_self]
    rfl
  · rw [Function.update_of_ne hd, List.count_singleton, if_neg (by simpa using Ne.symm hd)]
    exact (Int.add_zero _).symm

/-- The instance of the socket. -/
theorem SlotsOk.lookup (h : SlotsOk m bound) (hmutex : m.mutex = true) {i : Nat} (hi : Used m i)
    {p : InstancePtr} {inst : AwdsInstance} (hp : m.awdsInstances i = some p)
    (hinst : m.instances p = some inst) (hsock : inst.sock = some sk) :
    m.awdsFindInstanceBySockLocked sk = .ok (some p) := by
  have hsi : sockAt m i = some sk := sockAt_eq_some.mpr ⟨p, inst, hp, hinst, hsock⟩
  refine lookup_found hmutex hi hp hsi fun k hk => ?_
  have hused : Used m k := by
    unfold Used at hi ⊢
    omega
  obtain ⟨s, -, hs⟩ := h.filled k hused
  refine ⟨s, hs, ?_⟩
  rintro rfl
  have := h.once k i s hused hi hs hsi
  omega

/-- A socket that is not bound is in none of the slots. -/
theorem Unbound.lookup (h : Unbound m bound sk) :
    { m with mutex := true }.awdsFindInstanceBySockLocked sk = .ok none := by
  refine lookup_missing rfl fun k hk => ?_
  obtain ⟨s, hs, hsk⟩ := h.slots.filled k hk
  refine ⟨s, hsk, ?_⟩
  rintro rfl
  exact h.unbound hs

/-- A pointer that has not been handed out is in no slot. -/
theorem SlotsOk.nextPtr_not_slot (h : SlotsOk m bound) (i : Nat) :
    m.awdsInstances i ≠ some m.nextPtr := by
  intro hi
  by_cases hused : Used m i
  · obtain ⟨s, -, hs⟩ := h.filled i hused
    obtain ⟨q, inst, hq, hinst, -⟩ := sockAt_eq_some.mp hs
    rw [hi] at hq
    cases hq
    rw [h.fresh _ (Nat.le_refl _)] at hinst
    cases hinst
  · rw [h.empty i hused] at hi
    cases hi

/-- The first `bind`. -/
theorem Unbound.first (h : Unbound m bound sk) (hdev : deviceOf net addr = some dev) :
    ∃ m', m.awdsSocketBind net {} sk addr = .ok (m', 0) ∧
      Holds net bound sk m [addr] [m.nextPtr + 1] m' := by
  -- The mutex is held while the instance is created.
  let m0 : AwdsModule := { m with mutex := true }
  have hadds : Adds net {} (withAllocation m0 sk) [] addr dev := ⟨hdev, by simp, rfl, rfl⟩
  obtain ⟨m1, happ, hrun⟩ := createInstance_added (m := m0) rfl h.room rfl
    h.slots.nextPtr_not_slot hadds
  have hbind := awdsSocketBind_run none h.mutex h.lookup hrun happ.mutex
  have hslots := (h.slots.bind hbind).1
  rw [if_pos rfl] at hslots
  have hatt := happ.attached (attached_withAllocation m0 sk)
  have htop : m1.awdsInstanceIndex = m.awdsInstanceIndex := happ.top
  have hge := h.slots.top_ge
  refine ⟨_, hbind, hslots, rfl, ⟨(m1.awdsInstanceIndex + 1).toNat, ?_, Function.update_self _ _ _⟩,
    ⟨⟨_, Function.update_self _ _ _, rfl, rfl⟩, happ.links, hatt.nodup, hatt.old⟩, ?_, ?_,
    fun q hq => ?_, fun d => ?_⟩
  · -- The new instance has the slot behind the top.
    show ((m1.awdsInstanceIndex + 1).toNat : Int) ≤ m1.awdsInstanceIndex + 1
    omega
  · show [m.nextPtr + 1].map (devAt m1) = [deviceOf net addr]
    rw [hdev]
    exact happ.devs
  · refine happ.count.trans ?_
    show (Function.update m.socks sk _ sk).ifcount + 1 = 1
    rw [Function.update_self]
    show (m.socks sk).ifcount + 1 = 1
    rw [h.count]
    rfl
  · exact happ.others q (List.not_mem_nil) fun hc => hq (List.mem_singleton.mpr hc)
  · show m1.devRefs d = m.devRefs d + [deviceOf net addr].count (some d)
    rw [happ.refs, hdev]
    exact devHold_refs _ dev d

namespace Holds

variable (h : Holds net bound sk m addrs ps m')
include h

/-- The socket has one interface for each address it was bound to. -/
theorem length_eq : ps.length = addrs.length := by
  have hlen := congrArg List.length h.devs
  rwa [List.length_map, List.length_map] at hlen

/-- The search by the socket finds its instance. -/
theorem lookup :
    { m' with mutex := true }.awdsFindInstanceBySockLocked sk = .ok (some m.nextPtr) := by
  obtain ⟨i, hi, hp⟩ := h.slot
  obtain ⟨inst, hinst, hsock, -⟩ := h.attached.inst
  exact (h.slots.setMutex true).lookup rfl hi hp hinst hsock

/-- The locked module has the interfaces, too. -/
theorem attached_locked : Attached { m' with mutex := true } m.nextPtr sk ps :=
  ⟨h.attached.inst, h.attached.links, h.attached.nodup, h.attached.old⟩

/-- A `bind` to a device that the socket is bound to fails and changes nothing. -/
theorem again (hdev : deviceOf net addr = some dev) (hmem : some dev ∈ addrs.map (deviceOf net))
    (mem : Memory) : m'.awdsSocketBind net mem sk addr = .ok (m', -eaddrinuse) := by
  have hbound : some dev ∈ ps.map (devAt m') := by
    rw [h.devs]
    exact hmem
  have hrun := h.attached_locked.createInterface_again hdev hbound mem
  have hbind := awdsSocketBind_run (some m.nextPtr) h.mutex h.lookup hrun rfl
  rw [hbind]
  have hmutex := h.mutex
  show Except.ok ({ m' with mutex := false }, -eaddrinuse) = _
  rw [← hmutex]

/-- The second `bind` to another device. -/
theorem next (hshort : addrs.length ≤ 1) (hdev : deviceOf net addr = some dev)
    (hnew : some dev ∉ addrs.map (deviceOf net)) :
    ∃ m'', m'.awdsSocketBind net {} sk addr = .ok (m'', 0) ∧
      Holds net bound sk m (addrs ++ [addr]) (ps ++ [m'.nextPtr]) m'' := by
  have hadds : Adds net {} { m' with mutex := true } ps addr dev :=
    ⟨hdev, by rw [← h.devs] at hnew; exact hnew, rfl, rfl⟩
  obtain ⟨m1, happ, hrun⟩ := h.attached_locked.addsInterface hadds
  -- A second interface returns 0, as the number of interfaces behind it is tested.
  rw [if_pos (by rw [h.length_eq]; exact hshort)] at hrun
  have hbind := awdsSocketBind_run (some m.nextPtr) h.mutex h.lookup hrun happ.mutex
  have hslots := (h.slots.bind hbind).1
  rw [if_pos rfl, Set.insert_idem] at hslots
  have hatt := happ.attached h.attached_locked
  refine ⟨_, hbind, hslots, rfl, ?_, ⟨hatt.inst, hatt.links, hatt.nodup, hatt.old⟩, ?_, ?_,
    fun q hq => ?_, fun d => ?_⟩
  · -- The instance stays in its slot.
    obtain ⟨i, hi, hp⟩ := h.slot
    refine ⟨i, ?_, ?_⟩
    · show (i : Int) ≤ m1.awdsInstanceIndex
      rw [happ.top]
      exact hi
    · show m1.awdsInstances i = _
      rw [happ.slots]
      exact hp
  · refine happ.devs.trans ?_
    show ps.map (devAt m') ++ _ = _
    rw [h.devs, List.map_append, List.map_singleton, hdev]
  · refine happ.count.trans ?_
    show (m'.socks sk).ifcount + 1 = _
    rw [h.count, List.length_append, List.length_singleton]
    rfl
  · obtain ⟨hps, hne⟩ : q ∉ ps ∧ q ≠ m'.nextPtr := by simpa using hq
    exact (happ.others q hps hne).trans (h.others q hps)
  · show m1.devRefs d = _
    rw [happ.refs, List.map_append, List.map_singleton, hdev, List.count_append, Nat.cast_add,
      ← Int.add_assoc, ← h.refs d]
    exact devHold_refs _ dev d

/-- A third `bind` that returns does not return 0. -/
theorem third (hlong : 2 ≤ addrs.length) (hdev : deviceOf net addr = some dev)
    (hnew : some dev ∉ addrs.map (deviceOf net)) {m'' : AwdsModule} {ret : Int}
    (hbind : m'.awdsSocketBind net {} sk addr = .ok (m'', ret)) : ret ≠ 0 := by
  have hadds : Adds net {} { m' with mutex := true } ps addr dev :=
    ⟨hdev, by rw [← h.devs] at hnew; exact hnew, rfl, rfl⟩
  obtain ⟨m1, h1, hbind⟩ := bind_eq_ok.mp hbind
  obtain ⟨-, rfl⟩ := lockMutex_eq_ok.mp h1
  obtain ⟨found, h2, hbind⟩ := bind_eq_ok.mp hbind
  rw [h.lookup] at h2
  cases h2
  obtain ⟨⟨m3, r⟩, h3, hbind⟩ := bind_eq_ok.mp hbind
  obtain ⟨m4, -, hbind⟩ := bind_eq_ok.mp hbind
  cases hbind
  exact h.attached_locked.createInterface_third hadds (by rw [h.length_eq]; exact hlong) h3

/-- The release frees the first interface and ends if the freed memory reads as null. -/
theorem release {q : InterfacePtr} {qs : List InterfacePtr} (hps : ps = q :: qs)
    (stale : InterfacePtr → Option InterfacePtr) :
    ∃ m'' i, Released { m' with mutex := true } m'' m.nextPtr sk q qs i ∧
      m'.awdsSocketRelease stale sk =
        if stale q = none then .ok ({ m'' with mutex := false }, 0) else .error .deadlock := by
  obtain ⟨i, hi, hp⟩ := h.slot
  have hatt := h.attached_locked
  rw [hps] at hatt
  obtain ⟨m2, hrel, hrun⟩ := hatt.releaseInstance rfl hi hp (h.slots.only hi hp) stale
  refine ⟨m2, i, hrel, ?_⟩
  by_cases hstale : stale q = none
  · rw [if_pos hstale] at hrun ⊢
    refine awdsSocketRelease_run (some m.nextPtr) h.mutex h.lookup hrun ?_
    rw [hrel.frame]
  · rw [if_neg hstale] at hrun ⊢
    unfold awdsSocketRelease
    rw [lockMutex_eq_ok.mpr ⟨h.mutex, rfl⟩, except_bind_ok, h.lookup, except_bind_ok]
    show (do
      let x ← { m' with mutex := true }.awdsReleaseInstanceLocked stale m.nextPtr
      let m ← x.1.unlockMutex
      Except.ok (m, (0 : Int))) = _
    rw [hrun]
    rfl

end Holds

/-- The binds of a socket to the addresses, one after another, with the values they return.
There is memory for all of them. -/
def bindAll (net : Net) (sk : SockPtr) (m : AwdsModule) (addrs : List SockaddrAwds) :
    KResult (AwdsModule × List Int) :=
  addrs.foldlM (fun (m, rets) addr => do
    let (m, ret) ← m.awdsSocketBind net {} sk addr
    .ok (m, rets ++ [ret])) (m, [])

/-- `awds_find_interface` finds the device for the instance of the socket. -/
def Findable (m : AwdsModule) (sk : SockPtr) (dev : DevPtr) : Prop :=
  ∃ p q, m.awdsFindInstanceBySock sk = .ok (m, some p) ∧
    m.awdsFindInterface p dev = .ok (m, some q)

/-- The binds to a list with one more address are those to the list and one more. The list grows at
its end, as the calls follow each other. -/
theorem bindAll_snoc {m'' : AwdsModule} {rets' : List Int} :
    bindAll net sk m (addrs ++ [addr]) = .ok (m'', rets') ↔
      ∃ m' rets ret, bindAll net sk m addrs = .ok (m', rets) ∧
        m'.awdsSocketBind net {} sk addr = .ok (m'', ret) ∧ rets' = rets ++ [ret] := by
  unfold bindAll
  rw [List.foldlM_append, bind_eq_ok]
  constructor
  · rintro ⟨⟨m', rets⟩, hall, hlast⟩
    obtain ⟨⟨m1, rets1⟩, hlast, hend⟩ := bind_eq_ok.mp hlast
    obtain ⟨⟨m2, ret⟩, hbind, hlast⟩ := bind_eq_ok.mp hlast
    cases hlast
    cases hend
    exact ⟨m', rets, ret, hall, hbind, rfl⟩
  · rintro ⟨m', rets, ret, hall, hbind, rfl⟩
    refine ⟨(m', rets), hall, ?_⟩
    rw [List.foldlM_cons]
    show (do
      let (m, ret) ← m'.awdsSocketBind net {} sk addr
      Except.ok (m, rets ++ [ret])) >>= _ = _
    rw [hbind]
    rfl

/-- `awds_find_instance_by_sock` takes the mutex, searches, and releases it. -/
theorem awdsFindInstanceBySock_run (hmutex : m.mutex = false) {found : Option InstancePtr}
    (hfound : { m with mutex := true }.awdsFindInstanceBySockLocked sk = .ok found) :
    m.awdsFindInstanceBySock sk = .ok (m, found) := by
  unfold awdsFindInstanceBySock
  rw [lockMutex_eq_ok.mpr ⟨hmutex, rfl⟩, except_bind_ok, hfound, except_bind_ok,
    unlockMutex_eq_ok.mpr ⟨rfl, rfl⟩, except_bind_ok]
  show Except.ok ({ m with mutex := false }, found) = _
  rw [← hmutex]

/-- Before the first bind no device can be found for the socket. -/
theorem Unbound.findable (h : Unbound m bound sk) (dev : DevPtr) : ¬ Findable m sk dev := by
  rintro ⟨p, q, hfound, -⟩
  rw [awdsFindInstanceBySock_run h.mutex h.lookup] at hfound
  cases hfound

/-- Behind the binds exactly their devices can be found: the search goes through the interfaces of
the socket. -/
theorem Holds.findable (h : Holds net bound sk m addrs ps m') (dev : DevPtr) :
    Findable m' sk dev ↔ some dev ∈ addrs.map (deviceOf net) := by
  have hinst := awdsFindInstanceBySock_run h.mutex h.lookup
  have hiface := h.attached.findInterface dev
  rw [← h.devs, ← find_isSome_iff]
  constructor
  · rintro ⟨p, q, hp, hq⟩
    rw [hinst] at hp
    cases hp
    rw [hiface] at hq
    injection hq with hq
    have hsome : (ps.find? fun q => devAt m' q = some dev) = some q := (Prod.ext_iff.mp hq).2
    rw [hsome]
    rfl
  · intro hsome
    obtain ⟨q, hq⟩ := Option.isSome_iff_exists.mp hsome
    exact ⟨m.nextPtr, q, hinst, by rw [hiface, hq]⟩

/-- Up to two binds to different devices succeed. -/
theorem Unbound.bindAll (h : Unbound m bound sk) (addrs : List SockaddrAwds)
    (hexist : ∀ a ∈ addrs, (deviceOf net a).isSome)
    (hdistinct : (addrs.map (deviceOf net)).Nodup) (hshort : addrs.length ≤ 2)
    (hne : addrs ≠ []) :
    ∃ m' qs, bindAll net sk m addrs = .ok (m', List.replicate addrs.length 0) ∧
      Holds net bound sk m addrs ((m.nextPtr + 1) :: qs) m' := by
  induction addrs using List.reverseRecOn with
  | nil => exact absurd rfl hne
  | append_singleton as a ih =>
    obtain ⟨dev, hdev⟩ := Option.isSome_iff_exists.mp (hexist a (by simp))
    rw [List.map_append, List.map_singleton, List.nodup_append, hdev] at hdistinct
    obtain ⟨hdistinct, -, hnew⟩ := hdistinct
    rw [List.length_append, List.length_singleton] at hshort ⊢
    rcases List.eq_nil_or_concat' as with rfl | ⟨as', a', has⟩
    · obtain ⟨m', hbind, hholds⟩ := h.first hdev
      exact ⟨m', [], bindAll_snoc.mpr ⟨m, [], 0, rfl, hbind, rfl⟩, hholds⟩
    · obtain ⟨m1, qs, hall, hholds⟩ := ih (fun b hb => hexist b (by simp [hb])) hdistinct
        (by omega) (by simp [has])
      obtain ⟨m2, hbind, hholds2⟩ := hholds.next (by omega) hdev
        fun hc => hnew _ hc (some dev) (by simp) rfl
      refine ⟨m2, qs ++ [m1.nextPtr], bindAll_snoc.mpr ⟨m1, _, 0, hall, hbind, ?_⟩, hholds2⟩
      rw [List.replicate_add]
      rfl

/-! ### For how many devices -/

/-- Every `bind` returns 0, makes its device findable and counts it. -/
def BindsAll (net : Net) (sk : SockPtr) (m : AwdsModule) (addrs : List SockaddrAwds) : Prop :=
  ∀ as, as <+: addrs → ∃ m', bindAll net sk m as = .ok (m', List.replicate as.length 0) ∧
    (m'.socks sk).ifcount = as.length ∧
    ∀ dev, Findable m' sk dev ↔ some dev ∈ as.map (deviceOf net)

/-- A `bind` to a device that the socket is bound to is an error and changes nothing. -/
def BindsOnce (net : Net) (sk : SockPtr) (m : AwdsModule) (addrs : List SockaddrAwds) : Prop :=
  ∀ m' rets, bindAll net sk m addrs = .ok (m', rets) → ∀ addr mem,
    deviceOf net addr ∈ addrs.map (deviceOf net) →
    ∃ ret, ret ≠ 0 ∧ m'.awdsSocketBind net mem sk addr = .ok (m', ret)

/-- The release removes every interface and drops every reference to a device that the binds
have taken. -/
def ReleasesAll (net : Net) (sk : SockPtr) (stale : InterfacePtr → Option InterfacePtr)
    (m : AwdsModule) (addrs : List SockaddrAwds) : Prop :=
  ∀ m' rets, bindAll net sk m addrs = .ok (m', rets) →
    ∃ m'', m'.awdsSocketRelease stale sk = .ok (m'', 0) ∧ m''.interfaces = m.interfaces ∧
      m''.devRefs = m.devRefs ∧ (m''.socks sk).ifcount = 0

/-- Up to two devices the binds do what they should. The empty list and a list with a last address
are looked at separately. -/
theorem Unbound.bindsAll (h : Unbound m bound sk) (hexist : ∀ a ∈ addrs, (deviceOf net a).isSome)
    (hdistinct : (addrs.map (deviceOf net)).Nodup) (hshort : addrs.length ≤ 2) :
    BindsAll net sk m addrs := by
  intro as has
  rcases List.eq_nil_or_concat' as with rfl | ⟨as', a', hcons⟩
  · refine ⟨m, rfl, h.count, fun dev => ?_⟩
    simp [h.findable dev]
  · obtain ⟨m', qs, hall, hholds⟩ := h.bindAll as
      (fun b hb => hexist b (has.subset hb)) (hdistinct.sublist (has.map _).sublist)
      (has.length_le.trans hshort) (by simp [hcons])
    exact ⟨m', hall, hholds.count, hholds.findable⟩

/-- A device that the socket has is refused, for up to two devices. -/
theorem Unbound.bindsOnce (h : Unbound m bound sk) (hexist : ∀ a ∈ addrs, (deviceOf net a).isSome)
    (hdistinct : (addrs.map (deviceOf net)).Nodup) (hshort : addrs.length ≤ 2) :
    BindsOnce net sk m addrs := by
  intro m' rets hall addr mem hmem
  obtain ⟨a, ha, hdev⟩ := List.mem_map.mp hmem
  obtain ⟨dev, hsome⟩ := Option.isSome_iff_exists.mp (hexist a ha)
  obtain ⟨m1, qs, hall1, hholds⟩ := h.bindAll _ hexist hdistinct hshort (List.ne_nil_of_mem ha)
  rw [hall] at hall1
  cases hall1
  have hdevs : deviceOf net addr = some dev := hdev.symm.trans hsome
  exact ⟨-eaddrinuse, by decide, hholds.again hdevs (hdevs ▸ hmem) mem⟩

/-- A third device makes a `bind` fail. -/
theorem Unbound.not_bindsAll (h : Unbound m bound sk)
    (hexist : ∀ a ∈ addrs, (deviceOf net a).isSome)
    (hdistinct : (addrs.map (deviceOf net)).Nodup) (hlong : 2 < addrs.length) :
    ¬ BindsAll net sk m addrs := by
  -- There is a third device. Its bind returns 1, so not all of them return 0.
  intro hall
  obtain ⟨a, b, c, rest, rfl⟩ : ∃ a b c rest, addrs = a :: b :: c :: rest := by
    rcases addrs with _ | ⟨a, _ | ⟨b, _ | ⟨c, rest⟩⟩⟩
    · simp at hlong
    · simp at hlong
    · simp at hlong
    · exact ⟨a, b, c, rest, rfl⟩
  obtain ⟨m3, hthree, -⟩ := hall ([a, b] ++ [c]) ⟨rest, rfl⟩
  obtain ⟨m2, rets, ret, htwo, hbind, hrets⟩ := bindAll_snoc.mp hthree
  have hfront : [a, b] <+: a :: b :: c :: rest := ⟨c :: rest, rfl⟩
  obtain ⟨m2', qs, htwo', hholds⟩ := h.bindAll [a, b]
    (fun d hd => hexist d (hfront.subset hd)) (hdistinct.sublist (hfront.map _).sublist)
    (Nat.le_refl _) (by simp)
  rw [htwo] at htwo'
  cases htwo'
  obtain ⟨dev, hdev⟩ := Option.isSome_iff_exists.mp (hexist c (by simp))
  have hnew : some dev ∉ [a, b].map (deviceOf net) := by
    intro hc
    rw [show a :: b :: c :: rest = [a, b] ++ (c :: rest) from rfl, List.map_append,
      List.nodup_append] at hdistinct
    exact hdistinct.2.2 _ hc (deviceOf net c) (by simp) hdev.symm
  have hzero : ret = 0 := by
    have hlast := congrArg List.getLast? hrets
    simpa using hlast.symm
  exact hholds.third (Nat.le_refl _) hdev hnew hbind hzero

/-- The references behind a release: that of the first device is dropped. -/
theorem Holds.release_refs {q : InterfacePtr} {qs : List InterfacePtr} {i : Nat} {m'' : AwdsModule}
    (h : Holds net bound sk m (addr :: addrs) (q :: qs) m')
    (hrel : Released { m' with mutex := true } m'' m.nextPtr sk q qs i)
    (hdev : deviceOf net addr = some dev) (d : DevPtr) :
    m''.devRefs d = m.devRefs d + (addrs.map (deviceOf net)).count (some d) := by
  have hfirst : devAt m' q = some dev := by
    have hdevs := h.devs
    rw [List.map_cons, List.map_cons, hdev] at hdevs
    exact (List.cons.inj hdevs).1
  rw [hrel.detached.refs dev hfirst]
  show Function.update m'.devRefs dev (m'.devRefs dev - 1) d = _
  have hrefs := h.refs d
  rw [List.map_cons, hdev, List.count_cons] at hrefs
  by_cases hd : d = dev
  · subst hd
    rw [Function.update_self, hrefs, if_pos (by simp)]
    omega
  · rw [Function.update_of_ne hd, hrefs, if_neg (by simpa using Ne.symm hd)]
    rfl

/-- A release gives everything back when the socket has at most one interface and the freed memory
behind it reads as zero. -/
theorem Unbound.releasesAll (h : Unbound m bound sk) (hexist : ∀ a ∈ addrs, (deviceOf net a).isSome)
    (hshort : addrs.length ≤ 1) {stale : InterfacePtr → Option InterfacePtr}
    (hstale : addrs ≠ [] → stale (m.nextPtr + 1) = none) :
    ReleasesAll net sk stale m addrs := by
  intro m' rets hall
  rcases addrs with _ | ⟨a, _ | ⟨b, rest⟩⟩
  · -- A socket that was never bound has nothing to release.
    cases hall
    exact ⟨_, awdsSocketRelease_run none h.mutex h.lookup rfl rfl, rfl, rfl, h.count⟩
  · obtain ⟨m1, qs, hall1, hholds⟩ := h.bindAll _ hexist (by simp) (by simp) (by simp)
    rw [hall] at hall1
    cases hall1
    have hqs : qs = [] := by
      have hlen := hholds.length_eq
      simpa using hlen
    subst hqs
    obtain ⟨dev, hdev⟩ := Option.isSome_iff_exists.mp (hexist a (by simp))
    obtain ⟨m2, i, hrel, hrun⟩ := hholds.release rfl stale
    rw [if_pos (hstale (by simp))] at hrun
    refine ⟨_, hrun, funext fun r => ?_, funext fun d => ?_, ?_⟩
    · -- The only interface is gone, and the other addresses are as they were.
      show m2.interfaces r = m.interfaces r
      by_cases hr : r = m.nextPtr + 1
      · rw [hr, hrel.detached.gone, h.fresh _ (Nat.le_succ _)]
      · have hnot : r ∉ [m.nextPtr + 1] := by simpa using hr
        exact (hrel.detached.others r hnot).trans (hholds.others r hnot)
    · -- Its reference is given back.
      exact (hholds.release_refs hrel hdev d).trans (Int.add_zero _)
    · refine hrel.detached.count.trans ?_
      show (Function.update m'.socks sk _ sk).ifcount - 1 = 0
      rw [Function.update_self]
      show (m'.socks sk).ifcount - 1 = 0
      rw [hholds.count]
      rfl
  · simp at hshort

/-- The release waits for ever or leaves the second interface behind. -/
theorem Unbound.releasesAll_iff (h : Unbound m bound sk)
    (hexist : ∀ a ∈ addrs, (deviceOf net a).isSome)
    (hdistinct : (addrs.map (deviceOf net)).Nodup) (hshort : addrs.length ≤ 2)
    (stale : InterfacePtr → Option InterfacePtr) :
    ReleasesAll net sk stale m addrs ↔
      addrs.length ≤ 1 ∧ (addrs ≠ [] → stale (m.nextPtr + 1) = none) := by
  refine ⟨fun hall => ?_, fun hcond => h.releasesAll hexist hcond.1 hcond.2⟩
  cases addrs with
  | nil => exact ⟨Nat.zero_le _, fun hne => absurd rfl hne⟩
  | cons a as =>
    obtain ⟨m', qs, hrun, hholds⟩ := h.bindAll _ hexist hdistinct hshort (by simp)
    obtain ⟨dev, hdev⟩ := Option.isSome_iff_exists.mp (hexist a (by simp))
    obtain ⟨m2, hrel, -, hrefs, -⟩ := hall m' _ hrun
    obtain ⟨m1, i, hreleased, heq⟩ := hholds.release rfl stale
    by_cases hstale : stale (m.nextPtr + 1) = none
    · refine ⟨?_, fun _ => hstale⟩
      rw [if_pos hstale, hrel] at heq
      cases heq
      cases as with
      | nil => exact Nat.le_refl _
      | cons b rest =>
        -- the reference to the second device is still there
        obtain ⟨dev', hdev'⟩ := Option.isSome_iff_exists.mp (hexist b (by simp))
        have hleft := hholds.release_refs hreleased hdev dev'
        rw [List.map_cons, hdev', List.count_cons_self] at hleft
        have hsame : m1.devRefs dev' = m.devRefs dev' := congrFun hrefs dev'
        omega
    · rw [if_neg hstale, hrel] at heq
      cases heq

/-- Take a socket that is not bound and binds it to different devices that exist, with memory
for all of them. All binds return 0, make their devices findable and count them if and only if
there are at most two. Then a further `bind` to one of the devices fails and changes nothing.
The release also removes every interface and drops every reference if and only if there is at
most one device and the `next` of its freed interface reads as null. -/
theorem socket_devices (h : Unbound m bound sk) (hexist : ∀ a ∈ addrs, (deviceOf net a).isSome)
    (hdistinct : (addrs.map (deviceOf net)).Nodup) (stale : InterfacePtr → Option InterfacePtr) :
    (BindsAll net sk m addrs ↔ addrs.length ≤ 2) ∧
    (addrs.length ≤ 2 → BindsOnce net sk m addrs) ∧
    (BindsAll net sk m addrs ∧ BindsOnce net sk m addrs ∧ ReleasesAll net sk stale m addrs ↔
      addrs.length ≤ 1 ∧ (addrs ≠ [] → stale (m.nextPtr + 1) = none)) := by
  have hbinds : BindsAll net sk m addrs ↔ addrs.length ≤ 2 := by
    refine ⟨fun hall => ?_, h.bindsAll hexist hdistinct⟩
    by_contra hlong
    exact h.not_bindsAll hexist hdistinct (by omega) hall
  have honce : addrs.length ≤ 2 → BindsOnce net sk m addrs := h.bindsOnce hexist hdistinct
  refine ⟨hbinds, honce, fun hall => ?_, fun hcond => ?_⟩
  · exact (h.releasesAll_iff hexist hdistinct (hbinds.mp hall.1) stale).mp hall.2.2
  · have hshort : addrs.length ≤ 2 := by omega
    exact ⟨hbinds.mpr hshort, honce hshort,
      (h.releasesAll_iff hexist hdistinct hshort stale).mpr hcond⟩

/-- A kernel with the devices 10, 20 and 30. -/
def threeDevices : Net where
  devGetByIndex i := if i = 1 then some 10 else if i = 2 then some 20 else
    if i = 3 then some 30 else none
  devGetbyhwaddr _ := none

/-- A module that was just loaded has no socket. -/
theorem unbound_start (sk : SockPtr) : Unbound {} ∅ sk :=
  ⟨SlotsOk.start, fun hc => hc, rfl, by decide, rfl, fun _ _ => rfl⟩

/-- A socket with one device, in a module that has just been loaded. -/
theorem socket_devices_one : BindsAll threeDevices 1 {} [⟨1, []⟩] ∧
    BindsOnce threeDevices 1 {} [⟨1, []⟩] ∧
    ReleasesAll threeDevices 1 (fun _ => none) {} [⟨1, []⟩] :=
  (@socket_devices {} ∅ 1 threeDevices [⟨1, []⟩] (unbound_start 1) (by decide) (by decide)
    fun _ => none).2.2.mpr ⟨by decide, fun _ => rfl⟩

/-- The third device: its `bind` returns 1 and the device cannot be found, since the lock of the
instance is left held. -/
theorem third_bind_fails : ∃ m,
    bindAll threeDevices 1 {} [⟨1, []⟩, ⟨2, []⟩, ⟨3, []⟩] = .ok (m, [0, 0, 1]) ∧
      (m.socks 1).ifcount = 2 ∧ m.awdsFindInterface 0 30 = .error .deadlock ∧
      ¬ BindsAll threeDevices 1 {} [⟨1, []⟩, ⟨2, []⟩, ⟨3, []⟩] := by
  refine ⟨_, rfl, rfl, rfl, fun hall => ?_⟩
  obtain ⟨m, hrun, -⟩ := hall _ (List.prefix_refl _)
  have hrets : some [0, 0, 1] = some [0, 0, (0 : Int)] :=
    congrArg (fun r => r.toOption.map Prod.snd) hrun
  exact absurd hrets (by decide)

end

end Awds.Proofs
