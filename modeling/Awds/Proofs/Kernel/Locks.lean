import Awds.Proofs.Kernel.Binding

/-!
# `Awds.Proofs.Kernel.Locks`: the mutexes of the socket operations

`Sound m n lists` is the state of the module between two operations. All mutexes are free.
The slots below `n` hold instances of different sockets, whose interfaces are `lists`. Either
`n` is behind the top, or the slot `n` is empty: the release of a socket below the top leaves
an empty slot, and no lookup gets over it.

`Allowed` is the condition under which an operation keeps this. It leaves out

- a lookup that meets an empty slot in front of the slot of its socket (`Reaches`),
- a `bind` that adds a third interface: `awds_release_interface` then keeps the lock of the
  instance,
- a release whose loop goes on behind the first interface, for the same reason,
- an `ioctl` with a command that is not known: it unlocks `awds_instance_mutex`, which is free.

`locks_balanced` says that in every run of such operations each one returns and leaves the
mutexes as they were.
-/

set_option autoImplicit false

namespace Awds.Proofs

open Awds.Lib Awds.Kernel Awds.Kernel.AwdsModule

/-- The state between two operations. -/
structure Sound (m : AwdsModule) (n : Nat) (lists : SockPtr → List InterfacePtr) : Prop where
  mutex : m.mutex = false
  unlocked : ∀ p inst, m.instances p = some inst → inst.locked = false
  fresh : ∀ p, m.nextPtr ≤ p → m.instances p = none
  top_ge : -1 ≤ m.awdsInstanceIndex
  top_le : m.awdsInstanceIndex ≤ maxAwdsIndex
  handed : ∀ i p, m.awdsInstances i = some p → p < m.nextPtr
  distinct : ∀ i j p, m.awdsInstances i = some p → m.awdsInstances j = some p → i = j
  entry : ∀ i, i < n → ∃ p sk, m.awdsInstances i = some p ∧ sockAt m i = some sk ∧
    Attached m p sk (lists sk) ∧ lists sk ≠ []
  once : ∀ i j sk, i < n → j < n → sockAt m i = some sk → sockAt m j = some sk → i = j
  apart : ∀ i j s t, i < n → j < n → sockAt m i = some s → sockAt m j = some t → i ≠ j →
    List.Disjoint (lists s) (lists t)
  edge : (n : Int) = m.awdsInstanceIndex + 1 ∨
    (n : Int) ≤ m.awdsInstanceIndex ∧ m.awdsInstances n = none

/-- No empty slot is in front of the slot of the socket, and none at all if it has no slot. -/
def Reaches (m : AwdsModule) (sk : SockPtr) : Prop :=
  ∀ k, Used m k → m.awdsInstances k = none → ∃ j, j < k ∧ sockAt m j = some sk

section
variable {m m' : AwdsModule} {n : Nat} {lists : SockPtr → List InterfacePtr} {sk : SockPtr}
  {net : Net} {mem : Memory} {addr : SockaddrAwds} {p : InstancePtr}

/-- The state behind the loading of the module, without an instance. -/
theorem Sound.start : Sound {} 0 fun _ => [] where
  mutex := rfl
  unlocked p inst h := by cases h
  fresh _ _ := rfl
  top_ge := by decide
  top_le := by decide
  handed i p h := by cases h
  distinct i j p h := by cases h
  entry i h := by cases h
  once i j sk h := by cases h
  apart i j s t h := by cases h
  edge := .inl rfl

/-- The slots below `n` are in use. -/
theorem Sound.used (h : Sound m n lists) {i : Nat} (hi : i < n) : Used m i := by
  unfold Used
  rcases h.edge with hn | ⟨hn, -⟩ <;> omega

/-- The interfaces of a socket that is found. -/
theorem Sound.attached (h : Sound m n lists) {i : Nat} (hi : i < n)
    (hp : m.awdsInstances i = some p) (hs : sockAt m i = some sk) :
    Attached m p sk (lists sk) ∧ lists sk ≠ [] := by
  obtain ⟨p', sk', hp', hs', hatt, hne⟩ := h.entry i hi
  rw [hp] at hp'
  rw [hs] at hs'
  cases hp'
  cases hs'
  exact ⟨hatt, hne⟩

/-- The lookup of a socket that it reaches. -/
theorem Sound.lookup (h : Sound m n lists) (hr : Reaches m sk) :
    (∃ i p, i < n ∧ m.awdsInstances i = some p ∧ sockAt m i = some sk ∧
      { m with mutex := true }.awdsFindInstanceBySockLocked sk = .ok (some p)) ∨
    ((n : Int) = m.awdsInstanceIndex + 1 ∧ (∀ i, i < n → sockAt m i ≠ some sk) ∧
      { m with mutex := true }.awdsFindInstanceBySockLocked sk = .ok none) := by
  -- The socket is in a full slot, or in none.
  by_cases hex : ∃ i, i < n ∧ sockAt m i = some sk
  · obtain ⟨i, hi, hs⟩ := hex
    obtain ⟨p, inst, hp, -, -⟩ := sockAt_eq_some.mp hs
    refine .inl ⟨i, p, hi, hp, hs, lookup_found (m := { m with mutex := true }) rfl (h.used hi) hp
      -- No slot in front of it has the same socket.
      hs fun k hk => ?_⟩
    obtain ⟨-, s, -, hsk, -, -⟩ := h.entry k (hk.trans hi)
    refine ⟨s, hsk, ?_⟩
    rintro rfl
    have hki := h.once k i s (hk.trans hi) hi hsk hs
    omega
  · have hnone : ∀ i, i < n → sockAt m i ≠ some sk := fun i hi hc => hex ⟨i, hi, hc⟩
    -- The full slots go up to the top, or they end at the slot `n`.
    rcases h.edge with hn | ⟨hn, hempty⟩
    · refine .inr ⟨hn, hnone, lookup_missing rfl fun k hk => ?_⟩
      have hk' : (k : Int) ≤ m.awdsInstanceIndex := hk
      have hkn : k < n := by omega
      obtain ⟨-, s, -, hsk, -, -⟩ := h.entry k hkn
      refine ⟨s, hsk, ?_⟩
      rintro rfl
      exact hnone k hkn hsk
    · -- the lookup would meet the empty slot `n`
      obtain ⟨j, hj, hs⟩ := hr n hn hempty
      exact absurd hs (hnone j hj)

/-- An operation that changes the lists of interfaces and leaves the slots alone. -/
theorem Sound.relist (h : Sound m n lists) {lists' : SockPtr → List InterfacePtr}
    (hmutex : m'.mutex = false) (htop : m'.awdsInstanceIndex = m.awdsInstanceIndex)
    (hslots : m'.awdsInstances = m.awdsInstances) (hinsts : m'.instances = m.instances)
    (hnext : m.nextPtr ≤ m'.nextPtr)
    (hentry : ∀ i p s, i < n → m.awdsInstances i = some p → sockAt m i = some s →
      Attached m' p s (lists' s) ∧ lists' s ≠ [])
    (hapart : ∀ i j s t, i < n → j < n → sockAt m i = some s → sockAt m j = some t → i ≠ j →
      List.Disjoint (lists' s) (lists' t)) : Sound m' n lists' := by
  -- Each slot has the socket that it had.
  have hat : ∀ i, sockAt m' i = sockAt m i := fun i => by
    unfold sockAt
    rw [hslots, hinsts]
  constructor
  · exact hmutex
  · rw [hinsts]
    exact h.unlocked
  · intro q hq
    rw [hinsts]
    exact h.fresh q (hnext.trans hq)
  · rw [htop]
    exact h.top_ge
  · rw [htop]
    exact h.top_le
  · rw [hslots]
    exact fun i q hq => (h.handed i q hq).trans_le hnext
  · rw [hslots]
    exact h.distinct
  · intro i hi
    obtain ⟨q, s, hq, hs, -⟩ := h.entry i hi
    exact ⟨q, s, by rw [hslots, hq], by rw [hat, hs], hentry i q s hi hq hs⟩
  · intro i j s hi hj
    rw [hat, hat]
    exact h.once i j s hi hj
  · intro i j s t hi hj
    rw [hat, hat]
    exact hapart i j s t hi hj
  · rw [htop, hslots]
    exact h.edge

/-- The interfaces of one socket are replaced. -/
theorem disjoint_update {s t : SockPtr} {l : List InterfacePtr} (hst : s ≠ t)
    (hs : s ≠ sk → List.Disjoint l (lists s)) (ht : t ≠ sk → List.Disjoint l (lists t))
    (hboth : s ≠ sk → t ≠ sk → List.Disjoint (lists s) (lists t)) :
    List.Disjoint (Function.update lists sk l s) (Function.update lists sk l t) := by
  by_cases hssk : s = sk
  · subst hssk
    rw [Function.update_self, Function.update_of_ne (Ne.symm hst)]
    exact ht (Ne.symm hst)
  · rw [Function.update_of_ne hssk]
    by_cases htsk : t = sk
    · subst htsk
      rw [Function.update_self]
      exact (hs hssk).symm
    · rw [Function.update_of_ne htsk]
      exact hboth hssk htsk

/-! ### A new slot -/

/-- A new instance, with the socket `sk`, is in the slot `n` behind the top. -/
structure Pushed (m m' : AwdsModule) (n : Nat) (sk : SockPtr) : Prop where
  mutex : m'.mutex = false
  top : m'.awdsInstanceIndex = n
  nextPtr : m'.nextPtr = m.nextPtr + 2
  slots : m'.awdsInstances = Function.update m.awdsInstances n (some m.nextPtr)
  new : ∃ inst, m'.instances m.nextPtr = some inst ∧ inst.sock = some sk ∧ inst.locked = false
  others : ∀ q, q ≠ m.nextPtr → m'.instances q = m.instances q

/-- The slot behind the top holds the new instance. -/
theorem Pushed.slot_new (h : Pushed m m' n sk) : m'.awdsInstances n = some m.nextPtr := by
  rw [h.slots, Function.update_self]

/-- The other slots hold what they held. -/
theorem Pushed.slot_old (h : Pushed m m' n sk) {j : Nat} (hj : j ≠ n) :
    m'.awdsInstances j = m.awdsInstances j := by
  rw [h.slots, Function.update_of_ne hj]

/-- The new slot belongs to the socket. -/
theorem Pushed.sockAt_new (h : Pushed m m' n sk) : sockAt m' n = some sk := by
  obtain ⟨inst, hinst, hsock, -⟩ := h.new
  exact sockAt_eq_some.mpr ⟨_, inst, h.slot_new, hinst, hsock⟩

/-- The new instance is at an address that no slot holds yet. -/
theorem Sound.ne_nextPtr (h : Sound m n lists) {j : Nat} (hp : m.awdsInstances j = some p) :
    p ≠ m.nextPtr := Nat.ne_of_lt (h.handed j p hp)

/-- The sockets of the old slots stay, since their instances do. -/
theorem Pushed.sockAt_old (hpush : Pushed m m' n sk) (h : Sound m n lists) {j : Nat}
    (hj : j < n) : sockAt m' j = sockAt m j := by
  obtain ⟨q, s, -, hs, -⟩ := h.entry j hj
  obtain ⟨q', inst, hq', hinst', hsock⟩ := sockAt_eq_some.mp hs
  rw [hs]
  exact sockAt_eq_some.mpr ⟨q', inst, by rw [hpush.slot_old (Nat.ne_of_lt hj), hq'],
    by rw [hpush.others q' (h.ne_nextPtr hq'), hinst'], hsock⟩

/-- A slot with another socket is one of the old slots. -/
theorem Pushed.sockAt_cases (hpush : Pushed m m' n sk) (h : Sound m n lists)
    (hnone : ∀ i, i < n → sockAt m i ≠ some sk) {j : Nat} (hj : j < n + 1) {s : SockPtr}
    (hs : sockAt m' j = some s) :
    (j < n ∧ sockAt m j = some s ∧ s ≠ sk) ∨ (j = n ∧ s = sk) := by
  rcases Nat.lt_or_eq_of_le (Nat.le_of_lt_succ hj) with hj | rfl
  · rw [hpush.sockAt_old h hj] at hs
    refine .inl ⟨hj, hs, ?_⟩
    rintro rfl
    exact hnone j hj hs
  · rw [hpush.sockAt_new] at hs
    exact .inr ⟨rfl, (Option.some.inj hs).symm⟩

/-- No two slots have the same instance. -/
theorem Pushed.distinct (hpush : Pushed m m' n sk) (h : Sound m n lists) {j k : Nat}
    (hj : m'.awdsInstances j = some p) (hk : m'.awdsInstances k = some p) : j = k := by
  by_cases hjn : j = n
  · rw [hjn, hpush.slot_new] at hj
    cases hj
    by_contra hne
    rw [hpush.slot_old fun hc => hne (hjn.trans hc.symm)] at hk
    exact h.ne_nextPtr hk rfl
  · rw [hpush.slot_old hjn] at hj
    by_cases hkn : k = n
    · rw [hkn, hpush.slot_new] at hk
      cases hk
      exact absurd rfl (h.ne_nextPtr hj)
    · rw [hpush.slot_old hkn] at hk
      exact h.distinct j k p hj hk

/-- The interfaces of the new instance are not those of another one. -/
theorem Pushed.apart (hpush : Pushed m m' n sk) (h : Sound m n lists)
    (hnone : ∀ i, i < n → sockAt m i ≠ some sk) {j k : Nat} (hj : j < n + 1) (hk : k < n + 1)
    {s t : SockPtr} (hs : sockAt m' j = some s) (ht : sockAt m' k = some t) (hjk : j ≠ k) :
    List.Disjoint (Function.update lists sk [m.nextPtr + 1] s)
      (Function.update lists sk [m.nextPtr + 1] t) := by
  -- The new interface was not there before.
  have hfresh : ∀ l u, l < n → sockAt m l = some u →
      List.Disjoint [m.nextPtr + 1] (lists u) := by
    intro l u hl hu q hq hqu
    obtain ⟨r, -, hr, -⟩ := sockAt_eq_some.mp hu
    have hlt : q < m.nextPtr := (h.attached hl hr hu).1.old q hqu
    rw [List.mem_singleton.mp hq] at hlt
    exact Nat.not_succ_lt_self hlt
  rcases hpush.sockAt_cases h hnone hj hs with ⟨hj, hs, hssk⟩ | ⟨rfl, rfl⟩
  · rcases hpush.sockAt_cases h hnone hk ht with ⟨hk, ht, -⟩ | ⟨rfl, rfl⟩
    · have hst : s ≠ t := fun hc => hjk (h.once j k t hj hk (hc ▸ hs) ht)
      exact disjoint_update hst (fun _ => hfresh j s hj hs) (fun _ => hfresh k t hk ht)
        fun _ _ => h.apart j k s t hj hk hs ht hjk
    · exact disjoint_update hssk (fun _ => hfresh j s hj hs) (absurd rfl) fun _ => absurd rfl
  · rcases hpush.sockAt_cases h hnone hk ht with ⟨hk, ht, htsk⟩ | ⟨rfl, -⟩
    · exact disjoint_update (Ne.symm htsk) (absurd rfl) (fun _ => hfresh k t hk ht) (absurd rfl)
    · exact absurd rfl hjk

/-- The state with a new slot. -/
theorem Sound.push (h : Sound m n lists) (hpush : Pushed m m' n sk)
    (hroom : (n : Int) ≤ maxAwdsIndex) (hnone : ∀ i, i < n → sockAt m i ≠ some sk)
    (hnew : Attached m' m.nextPtr sk [m.nextPtr + 1])
    (hold : ∀ q s, Attached m q s (lists s) → s ≠ sk → q ≠ m.nextPtr →
      Attached m' q s (lists s)) :
    Sound m' (n + 1) (Function.update lists sk [m.nextPtr + 1]) := by
  have hle : m.nextPtr < m'.nextPtr := by
    rw [hpush.nextPtr]
    omega
  refine ⟨hpush.mutex, fun q inst hq => ?_, fun q hq => ?_, ?_, ?_, fun j q hq => ?_,
    fun j k q hj hk => hpush.distinct h hj hk, fun j hj => ?_, fun j k s hj hk hsj hsk => ?_,
    fun j k s t hj hk hsj hsk hjk => hpush.apart h hnone hj hk hsj hsk hjk, .inl ?_⟩
  · -- The new instance is not locked, and the others are as they were.
    by_cases hqn : q = m.nextPtr
    · obtain ⟨inst', hinst', -, hfree⟩ := hpush.new
      rw [hqn, hinst'] at hq
      cases hq
      exact hfree
    · rw [hpush.others q hqn] at hq
      exact h.unlocked q inst hq
  · rw [hpush.others q (by omega)]
    exact h.fresh q (by omega)
  · rw [hpush.top]
    omega
  · rw [hpush.top]
    exact hroom
  · -- The new instance is at an address in front of the next one that is free.
    by_cases hj : j = n
    · rw [hj, hpush.slot_new] at hq
      cases hq
      exact hle
    · rw [hpush.slot_old hj] at hq
      exact (h.handed j q hq).trans hle
  · -- The slots below `n` keep their lists, and the new slot has one interface.
    rcases Nat.lt_or_eq_of_le (Nat.le_of_lt_succ hj) with hj | rfl
    · obtain ⟨q, s, hq, hs, hatt, hne⟩ := h.entry j hj
      have hssk : s ≠ sk := fun hc => hnone j hj (hc ▸ hs)
      refine ⟨q, s, by rw [hpush.slot_old (Nat.ne_of_lt hj), hq],
        by rw [hpush.sockAt_old h hj, hs], ?_⟩
      rw [Function.update_of_ne hssk]
      exact ⟨hold q s hatt hssk (h.ne_nextPtr hq), hne⟩
    · refine ⟨m.nextPtr, sk, hpush.slot_new, hpush.sockAt_new, ?_⟩
      rw [Function.update_self]
      exact ⟨hnew, by simp⟩
  · -- Two slots have different sockets: both are old ones, or one is the new slot, whose socket was
    -- in none.
    rcases hpush.sockAt_cases h hnone hj hsj with ⟨hj, hsj, hne⟩ | ⟨rfl, rfl⟩
    · rcases hpush.sockAt_cases h hnone hk hsk with ⟨hk, hsk, -⟩ | ⟨-, heq⟩
      · exact h.once j k s hj hk hsj hsk
      · exact absurd heq hne
    · rcases hpush.sockAt_cases h hnone hk hsk with ⟨-, -, hne⟩ | ⟨rfl, -⟩
      · exact absurd rfl hne
      · rfl
  · rw [hpush.top]
    omega

/-! ### Binding -/

/-- A `bind` that adds nothing. -/
theorem Sound.bind_rejected (h : Sound m n lists) {found : Option InstancePtr}
    (hfound : { m with mutex := true }.awdsFindInstanceBySockLocked sk = .ok found) {ret : Int}
    (hrun : { m with mutex := true }.bindInstance net mem sk addr found = .ok (m', ret))
    (hframe : m' = { m with mutex := true, nextPtr := m'.nextPtr, socks := m'.socks })
    (hnext : m.nextPtr ≤ m'.nextPtr)
    (hsocks : ∀ i s, i < n → sockAt m i = some s → m'.socks s = m.socks s) :
    ∃ m' ret, m.awdsSocketBind net mem sk addr = .ok (m', ret) ∧ Sound m' n lists := by
  refine ⟨_, _, awdsSocketBind_run found h.mutex hfound hrun (by rw [hframe]), ?_⟩
  have hinsts : m'.instances = m.instances := by rw [hframe]
  have hifaces : m'.interfaces = m.interfaces := by rw [hframe]
  refine h.relist rfl ?_ ?_ hinsts hnext (fun i q s hi hq hs => ?_) h.apart
  · show m'.awdsInstanceIndex = _
    rw [hframe]
  · show m'.awdsInstances = _
    rw [hframe]
  · obtain ⟨hatt, hne⟩ := h.attached hi hq hs
    exact ⟨hatt.frame (congrFun hinsts q) hnext (congrArg _ (hsocks i s hi hs))
      fun r _ => congrFun hifaces r, hne⟩

/-- A `bind` that adds an interface to a socket with at most one. -/
theorem Sound.bind_interface (h : Sound m n lists) {i : Nat} (hi : i < n)
    (hp : m.awdsInstances i = some p) (hs : sockAt m i = some sk)
    (hfound : { m with mutex := true }.awdsFindInstanceBySockLocked sk = .ok (some p))
    {dev : DevPtr} (hadds : Adds net mem m (lists sk) addr dev) (hshort : (lists sk).length ≤ 1) :
    ∃ m' ret, m.awdsSocketBind net mem sk addr = .ok (m', ret) ∧
      Sound m' n (Function.update lists sk (lists sk ++ [m.nextPtr])) := by
  obtain ⟨hatt, hne⟩ := h.attached hi hp hs
  have hattLocked : Attached { m with mutex := true } p sk (lists sk) :=
    ⟨hatt.inst, hatt.links, hatt.nodup, hatt.old⟩
  have haddsLocked : Adds net mem { m with mutex := true } (lists sk) addr dev :=
    ⟨hadds.exists_dev, hadds.new_dev, hadds.ifaceOk, hadds.addrOk⟩
  obtain ⟨m1, happ, hrun⟩ := hattLocked.addsInterface haddsLocked
  rw [if_pos hshort] at hrun
  have hbind := awdsSocketBind_run (some p) h.mutex hfound hrun happ.mutex
  have hslots : m1.awdsInstances = m.awdsInstances := happ.slots
  have hinsts : m1.instances = m.instances := happ.instances
  have hnext : m1.nextPtr = m.nextPtr + 1 := happ.nextPtr
  have htop : m1.awdsInstanceIndex = m.awdsInstanceIndex := happ.top
  -- the other sockets keep their lists
  have hother : ∀ j s, j < n → sockAt m j = some s → s ≠ sk →
      ∀ q ∈ lists s, q ∉ lists sk ∧ q < m.nextPtr := by
    intro j s hj hsj hne q hq
    have hji : j ≠ i := by
      rintro rfl
      rw [hs] at hsj
      exact hne (Option.some.inj hsj).symm
    obtain ⟨r, -, hr, -⟩ := sockAt_eq_some.mp hsj
    exact ⟨h.apart j i s sk hj hi hsj hs hji hq, (h.attached hj hr hsj).1.old q hq⟩
  refine ⟨_, _, hbind, h.relist rfl htop hslots hinsts (Nat.le_of_succ_le hnext.ge)
    (fun j q s hj hq hsj => ?_) fun j k s t hj hk hsj hsk hjk => ?_⟩
  · obtain ⟨hattj, hnej⟩ := h.attached hj hq hsj
    by_cases hssk : s = sk
    · subst hssk
      have hji : j = i := h.once j i s hj hi hsj hs
      subst hji
      rw [hp] at hq
      cases hq
      have hnew := happ.attached hattLocked
      rw [Function.update_self]
      exact ⟨⟨hnew.inst, hnew.links, hnew.nodup, hnew.old⟩, by simp⟩
    · rw [Function.update_of_ne hssk]
      refine ⟨hattj.frame (congrFun hinsts q) (Nat.le_of_succ_le hnext.ge)
        (congrArg _ (happ.socks s hssk)) fun r hr => ?_, hnej⟩
      obtain ⟨hnot, hlt⟩ := hother j s hj hsj hssk r hr
      exact happ.others r hnot (Nat.ne_of_lt hlt)
  · -- at most one of the two sockets is the one that is bound
    have hst : s ≠ t := fun hc => hjk (h.once j k t hj hk (hc ▸ hsj) hsk)
    have hgrown : ∀ l u, l < n → sockAt m l = some u → u ≠ sk →
        List.Disjoint (lists sk ++ [m.nextPtr]) (lists u) := by
      intro l u hl hu hne q hq hqu
      obtain ⟨hnot, hlt⟩ := hother l u hl hu hne q hqu
      rcases List.mem_append.mp hq with hq | hq
      · exact hnot hq
      · exact Nat.ne_of_lt hlt (List.mem_singleton.mp hq)
    exact disjoint_update hst (hgrown j s hj hsj) (hgrown k t hk hsk)
      fun _ _ => h.apart j k s t hj hk hsj hsk hjk

/-- The first `bind` of a socket: its instance goes into the slot behind the top. -/
theorem Sound.bind_instance (h : Sound m n lists) (hn : (n : Int) = m.awdsInstanceIndex + 1)
    (hnone : ∀ i, i < n → sockAt m i ≠ some sk)
    (hfound : { m with mutex := true }.awdsFindInstanceBySockLocked sk = .ok none)
    (hroom : m.awdsInstanceIndex < maxAwdsIndex) (hinst : mem.instOk = true) {dev : DevPtr}
    (hadds : Adds net mem (withAllocation { m with mutex := true } sk) [] addr dev) :
    ∃ m' ret, m.awdsSocketBind net mem sk addr = .ok (m', ret) ∧
      Sound m' (n + 1) (Function.update lists sk [m.nextPtr + 1]) := by
  -- The mutex is taken for the whole of the bind.
  let m0 : AwdsModule := { m with mutex := true }
  obtain ⟨m1, happ, hrun⟩ := createInstance_added (m := m0) rfl hroom hinst
    (fun i hc => h.ne_nextPtr (j := i) hc rfl) hadds
  have hbind := awdsSocketBind_run none h.mutex hfound hrun happ.mutex
  have htop : m1.awdsInstanceIndex = m.awdsInstanceIndex := happ.top
  have hslot : (m1.awdsInstanceIndex + 1).toNat = n := by omega
  have hnext : m1.nextPtr = m.nextPtr + 2 := happ.nextPtr
  let m' : AwdsModule := { withInstance m1 m.nextPtr { sock := some sk } with mutex := false }
  have hnew : m'.instances m.nextPtr =
      some { index := m1.awdsInstanceIndex + 1, sock := some sk } := Function.update_self _ _ _
  -- The instance that was added is in the slot `n`.
  have hpush : Pushed m m' n sk := by
    refine ⟨rfl, ?_, hnext, ?_, ⟨_, hnew, rfl, rfl⟩, fun q hq => ?_⟩
    · show m1.awdsInstanceIndex + 1 = n
      omega
    · show Function.update m1.awdsInstances (m1.awdsInstanceIndex + 1).toNat _ = _
      rw [hslot, happ.slots]
      rfl
    · refine (Function.update_of_ne hq _ _).trans ?_
      rw [happ.instances]
      exact Function.update_of_ne hq _ _
  refine ⟨m', 0, hbind, h.push hpush (by omega) hnone ?_ fun q s hatt hssk hq => ?_⟩
  · have hatt := happ.attached (attached_withAllocation m0 sk)
    exact ⟨⟨_, hnew, rfl, rfl⟩, happ.links, hatt.nodup, hatt.old⟩
  · -- The other sockets keep their lists, as no address of theirs is a new one.
    refine hatt.frame (hpush.others q hq) ?_ ?_ fun r hr => ?_
    · show m.nextPtr ≤ m1.nextPtr
      omega
    · show (m1.socks s).interf = _
      rw [happ.socks s hssk]
      exact congrArg AwdsSock.interf (Function.update_of_ne hssk _ _)
    · have hlt : r < m.nextPtr := hatt.old r hr
      have hne : r ≠ m.nextPtr + 1 := Nat.ne_of_lt (hlt.trans (Nat.lt_succ_self _))
      exact happ.others r List.not_mem_nil hne

/-! ### Releasing -/

/-- The state behind the release of the instance in the slot `i`. The slots in front of it are
what is left of the array. -/
theorem Sound.released (h : Sound m n lists) {i : Nat} (hi : i < n)
    (hp : m.awdsInstances i = some p) (hs : sockAt m i = some sk) {q : InterfacePtr}
    {qs : List InterfacePtr} (hlist : lists sk = q :: qs)
    (hrel : Released { m with mutex := true } m' p sk q qs i) :
    Sound { m' with mutex := false } i lists := by
  have hused : (i : Int) ≤ m.awdsInstanceIndex := h.used hi
  have htop : m'.awdsInstanceIndex = m.awdsInstanceIndex - 1 := by rw [hrel.frame]
  have hslots : m'.awdsInstances = Function.update m.awdsInstances i none := by rw [hrel.frame]
  have hinsts : m'.instances = Function.update m.instances p none := by rw [hrel.frame]
  have hnext : m'.nextPtr = m.nextPtr := by rw [hrel.frame]
  have hle := h.top_le
  -- what is in a slot now was there before
  have hslot : ∀ j r, m'.awdsInstances j = some r → j ≠ i ∧ m.awdsInstances j = some r := by
    intro j r hr
    rw [hslots] at hr
    by_cases hj : j = i
    · rw [hj, Function.update_self] at hr
      cases hr
    · rw [Function.update_of_ne hj] at hr
      exact ⟨hj, hr⟩
  have hother : ∀ j r, j ≠ i → m.awdsInstances j = some r → m'.instances r = m.instances r := by
    intro j r hj hr
    rw [hinsts, Function.update_of_ne]
    rintro rfl
    exact hj (h.distinct j i r hr hp)
  have hat : ∀ j, j < i → sockAt { m' with mutex := false } j = sockAt m j := by
    intro j hj
    obtain ⟨r, s, hr, hsj, -⟩ := h.entry j (hj.trans hi)
    obtain ⟨r', inst, hr', hinst, hsock⟩ := sockAt_eq_some.mp hsj
    rw [hsj]
    refine sockAt_eq_some.mpr ⟨r', inst, ?_, ?_, hsock⟩
    · show m'.awdsInstances j = _
      rw [hslots, Function.update_of_ne (Nat.ne_of_lt hj), hr']
    · show m'.instances r' = _
      rw [hother j r' (Nat.ne_of_lt hj) hr', hinst]
  refine ⟨rfl, fun r inst hr => ?_, fun r hr => ?_, ?_, ?_, fun j r hr => ?_,
    fun j k r hj hk => ?_, fun j hj => ?_, fun j k s hj hk hsj hsk => ?_,
    fun j k s t hj hk hsj hsk => ?_, ?_⟩
  · have hr' : m'.instances r = some inst := hr
    rw [hinsts] at hr'
    by_cases hrp : r = p
    · rw [hrp, Function.update_self] at hr'
      cases hr'
    · rw [Function.update_of_ne hrp] at hr'
      exact h.unlocked r inst hr'
  · show m'.instances r = none
    have hnr : m'.nextPtr ≤ r := hr
    rw [hnext] at hnr
    rw [hinsts]
    by_cases hrp : r = p
    · rw [hrp, Function.update_self]
    · rw [Function.update_of_ne hrp]
      exact h.fresh r hnr
  · show -1 ≤ m'.awdsInstanceIndex
    omega
  · show m'.awdsInstanceIndex ≤ maxAwdsIndex
    omega
  · show r < m'.nextPtr
    rw [hnext]
    exact h.handed j r (hslot j r hr).2
  · exact h.distinct j k r (hslot j r hj).2 (hslot k r hk).2
  · obtain ⟨r, s, hr, hsj, hatt, hne⟩ := h.entry j (hj.trans hi)
    have hji : j ≠ i := Nat.ne_of_lt hj
    have hssk : s ≠ sk := fun hc => hji (h.once j i s (hj.trans hi) hi hsj (hc ▸ hs))
    refine ⟨r, s, ?_, by rw [hat j hj, hsj], ?_, hne⟩
    · show m'.awdsInstances j = _
      rw [hslots, Function.update_of_ne hji, hr]
    · refine hatt.frame (hother j r hji hr) hnext.ge ?_ fun u hu => ?_
      · show (m'.socks s).interf = _
        rw [hrel.detached.socks s hssk]
        exact congrArg AwdsSock.interf (Function.update_of_ne hssk _ _)
      · refine hrel.detached.others u ?_
        have hdis := h.apart j i s sk (hj.trans hi) hi hsj hs hji
        rw [hlist] at hdis
        exact hdis hu
  · rw [hat j hj] at hsj
    rw [hat k hk] at hsk
    exact h.once j k s (hj.trans hi) (hk.trans hi) hsj hsk
  · rw [hat j hj] at hsj
    rw [hat k hk] at hsk
    exact h.apart j k s t (hj.trans hi) (hk.trans hi) hsj hsk
  · show (i : Int) = m'.awdsInstanceIndex + 1 ∨
      (i : Int) ≤ m'.awdsInstanceIndex ∧ m'.awdsInstances i = none
    rw [hslots, Function.update_self]
    have hcases : (i : Int) = m'.awdsInstanceIndex + 1 ∨ (i : Int) ≤ m'.awdsInstanceIndex := by
      omega
    exact hcases.imp_right fun hle => ⟨hle, rfl⟩

/-! ### Every run -/

/-- The socket is in a slot up to the top. -/
def IsBound (m : AwdsModule) (sk : SockPtr) : Prop := ∃ i, Used m i ∧ sockAt m i = some sk

/-- The commands that `awds_socket_ioctl` knows, and those that it turns down at once. -/
def Answered (cmd : Nat) (u : UserMemory) : Prop :=
  cmd = aiocscfgnr ∨ cmd = aiocgcfgnr ∨ cmd = aiocsrttbl ∨
    ((IocFields.of cmd).type = awdsIocMagic ∧ awdsIocMaxNr < (IocFields.of cmd).nr) ∨
    ((IocFields.of cmd).dir ≠ 0 ∧ u.accessOk = false)

/-- The condition under which an operation leaves the mutexes as they were. -/
def Allowed (net : Net) (m : AwdsModule) : Op → Prop
  | .bind sk addr mem => Reaches m sk ∧ ∀ ps dev, IsBound m sk → Links m (m.socks sk).interf ps →
    Adds net mem m ps addr dev → ps.length ≤ 1
  | .release sk stale => Reaches m sk ∧
    ∀ q, IsBound m sk → (m.socks sk).interf = some q → stale q = none
  | .ioctl cmd u => Answered cmd u
  | .recvmsg sk _ => Reaches m sk

/-- A bind that is allowed returns, and the state is sound again: the socket has a slot already and
gets one more interface, or it gets a slot. -/
theorem Sound.bind (h : Sound m n lists) (hok : Allowed net m (.bind sk addr mem)) :
    ∃ m' ret n' lists', m.awdsSocketBind net mem sk addr = .ok (m', ret) ∧ Sound m' n' lists' := by
  obtain ⟨hreach, hshort⟩ := hok
  -- The socket has an instance already, or it gets one.
  rcases h.lookup hreach with ⟨i, p, hi, hp, hs, hfound⟩ | ⟨hn, hnone, hfound⟩
  · obtain ⟨hatt, hne⟩ := h.attached hi hp hs
    -- One interface more, or a bind that fails and leaves the lists as they are.
    by_cases hadds : ∃ dev, Adds net mem m (lists sk) addr dev
    · obtain ⟨dev, hadds⟩ := hadds
      have hlen := hshort (lists sk) dev ⟨i, h.used hi, hs⟩ hatt.links hadds
      obtain ⟨m', ret, hrun, hsound⟩ := h.bind_interface hi hp hs hfound hadds hlen
      exact ⟨m', ret, _, _, hrun, hsound⟩
    · have hattLocked : Attached { m with mutex := true } p sk (lists sk) :=
        ⟨hatt.inst, hatt.links, hatt.nodup, hatt.old⟩
      obtain ⟨ret, k, -, hk, hrun⟩ := hattLocked.createInterface_rejected fun dev hc =>
        hadds ⟨dev, hc.exists_dev, hc.new_dev, hc.ifaceOk, hc.addrOk⟩
      obtain ⟨m', ret, hbind, hsound⟩ := h.bind_rejected hfound hrun rfl hk fun _ _ _ _ => rfl
      exact ⟨m', ret, _, _, hbind, hsound⟩
  · by_cases hadds : m.awdsInstanceIndex < maxAwdsIndex ∧ mem.instOk = true ∧
        ∃ dev, Adds net mem (withAllocation { m with mutex := true } sk) [] addr dev
    · obtain ⟨hroom, hinst, dev, hadds⟩ := hadds
      obtain ⟨m', ret, hrun, hsound⟩ := h.bind_instance hn hnone hfound hroom hinst hadds
      exact ⟨m', ret, _, _, hrun, hsound⟩
    · -- No instance was created: what was allocated is not seen by the others.
      obtain ⟨m1, ret, -, hrun, hframe, hnext, hsocks⟩ := createInstance_rejected
        (m := { m with mutex := true }) h.top_le (h.fresh _ (Nat.le_refl _))
        fun hroom hinst dev hc => hadds ⟨hroom, hinst, dev, hc⟩
      obtain ⟨m', ret, hbind, hsound⟩ := h.bind_rejected hfound hrun hframe hnext
        fun i s hi hs => hsocks s fun hc => hnone i hi (hc ▸ hs)
      exact ⟨m', ret, _, _, hbind, hsound⟩

/-- The same for a release. The instance of the socket goes, or there is none to release. -/
theorem Sound.release (h : Sound m n lists) {stale : InterfacePtr → Option InterfacePtr}
    (hok : Allowed net m (.release sk stale)) :
    ∃ m' ret n' lists', m.awdsSocketRelease stale sk = .ok (m', ret) ∧ Sound m' n' lists' := by
  obtain ⟨hreach, hstale⟩ := hok
  rcases h.lookup hreach with ⟨i, p, hi, hp, hs, hfound⟩ | ⟨hn, hnone, hfound⟩
  · obtain ⟨hatt, hne⟩ := h.attached hi hp hs
    obtain ⟨q, qs, hlist⟩ := List.exists_cons_of_ne_nil hne
    rw [hlist] at hatt
    have hattLocked : Attached { m with mutex := true } p sk (q :: qs) :=
      ⟨hatt.inst, hatt.links, hatt.nodup, hatt.old⟩
    obtain ⟨m1, hrel, hrun⟩ := hattLocked.releaseInstance rfl (h.used hi) hp
      (fun j hj => h.distinct j i p hj hp) stale
    rw [if_pos (hstale q ⟨i, h.used hi, hs⟩ hatt.links.first_eq)] at hrun
    have hmutex : m1.mutex = true := by rw [hrel.frame]
    exact ⟨_, _, _, _, awdsSocketRelease_run (some p) h.mutex hfound hrun hmutex,
      h.released hi hp hs hlist hrel⟩
  · refine ⟨_, _, n, lists, awdsSocketRelease_run none h.mutex hfound rfl rfl, ?_⟩
    have hmutex := h.mutex
    show Sound { m with mutex := false } n lists
    rw [← hmutex]
    exact h

/-- The routing table and the configuration have nothing to do with the sockets. -/
theorem Sound.control (h : Sound m n lists) (table : Option (List AwdsRoutingEntry)) (count : Nat)
    (config : UInt16) :
    Sound { m with
      mutex := false
      awdsRouting := table
      awdsRoutingCount := count
      configuration := config } n lists :=
  h.relist rfl rfl rfl rfl (Nat.le_refl _)
    (fun _ _ _ hi hp hs => ⟨(h.attached hi hp hs).1.frame rfl (Nat.le_refl _) rfl fun _ _ => rfl,
      (h.attached hi hp hs).2⟩) h.apart

/-- Setting the routing table touches neither locks nor slots, whether the copy from user space
works or not. -/
theorem Sound.setRoutingTable (h : Sound m n lists) (u : UserMemory) :
    ∃ m' ret, m.setRoutingTable u = .ok (m', ret) ∧ Sound m' n lists := by
  unfold AwdsModule.setRoutingTable
  by_cases hcopy : (!u.copyIntOk) = true
  · rw [if_pos hcopy]
    exact ⟨m, _, rfl, h⟩
  rw [if_neg hcopy]
  by_cases hvalid : ¬ ValidLength u.int
  · rw [if_pos hvalid]
    exact ⟨m, _, rfl, h⟩
  rw [if_neg hvalid, lockMutex_eq_ok.mpr ⟨h.mutex, rfl⟩, except_bind_ok]
  -- the mutex is given back whichever of the calls fails
  cases u.kmallocOk with
  | false => exact ⟨_, _, rfl, h.control none m.awdsRoutingCount m.configuration⟩
  | true =>
    cases u.copyTableOk with
    | false => exact ⟨_, _, rfl, h.control _ m.awdsRoutingCount m.configuration⟩
    | true => exact ⟨_, _, rfl, h.control _ _ m.configuration⟩

/-- An `ioctl` that is answered returns. The cases follow the tests of the handler from the first to
the last. -/
theorem Sound.ioctl (h : Sound m n lists) {cmd : Nat} {u : UserMemory} (hok : Answered cmd u) :
    ∃ m' ret, m.awdsSocketIoctl cmd u = .ok (m', ret) ∧ Sound m' n lists := by
  unfold awdsSocketIoctl
  dsimp only
  by_cases hnr : (IocFields.of cmd).type = awdsIocMagic ∧ (IocFields.of cmd).nr > awdsIocMaxNr
  · rw [if_pos hnr]
    exact ⟨m, _, rfl, h⟩
  rw [if_neg hnr]
  by_cases haccess : (IocFields.of cmd).dir ≠ 0 ∧ (!u.accessOk) = true
  · rw [if_pos haccess]
    exact ⟨m, _, rfl, h⟩
  rw [if_neg haccess]
  -- The configuration is set, or it is not copied.
  by_cases hset : cmd = aiocscfgnr
  · rw [if_pos hset]
    cases u.copyIntOk with
    | false => exact ⟨m, _, rfl, h⟩
    | true =>
      refine ⟨_, _, rfl, ?_⟩
      have hmutex := h.mutex
      have hcontrol := h.control m.awdsRouting m.awdsRoutingCount
        (UInt16.ofNat (u.int % 2 ^ 16).toNat)
      rw [← hmutex] at hcontrol
      exact hcontrol
  rw [if_neg hset]
  -- Reading the configuration changes nothing.
  by_cases hget : cmd = aiocgcfgnr
  · rw [if_pos hget]
    cases u.copyIntOk with
    | false => exact ⟨m, _, rfl, h⟩
    | true => exact ⟨m, _, rfl, h⟩
  rw [if_neg hget]
  by_cases htable : cmd = aiocsrttbl
  · rw [if_pos htable]
    exact h.setRoutingTable u
  · -- No other command is answered.
    rcases hok with hc | hc | hc | hc | ⟨hdir, hc⟩
    · exact absurd hc hset
    · exact absurd hc hget
    · exact absurd hc htable
    · exact absurd hc hnr
    · exact absurd ⟨hdir, by rw [hc]; rfl⟩ haccess

/-- `recvmsg` returns and changes nothing. It looks the instance and the interface up in order to
fill in the address. -/
theorem Sound.recvmsg (h : Sound m n lists) (hreach : Reaches m sk) (a : RecvArgs) :
    ∃ ret, m.awdsSocketRecvmsg sk a = .ok (m, ret) := by
  -- The lookup returns with the mutex free again, and so does the search for an interface.
  have hlookup : ∃ found, m.awdsFindInstanceBySock sk = .ok (m, found) ∧
      ∀ p dev, found = some p → ∃ q, m.awdsFindInterface p dev = .ok (m, q) := by
    rcases h.lookup hreach with ⟨i, p, hi, hp, hs, hfound⟩ | ⟨-, -, hfound⟩
    · refine ⟨some p, awdsFindInstanceBySock_run h.mutex hfound, fun p' dev hp' => ?_⟩
      cases hp'
      exact ⟨_, (h.attached hi hp hs).1.findInterface dev⟩
    · exact ⟨none, awdsFindInstanceBySock_run h.mutex hfound, fun p' dev hp' => by cases hp'⟩
  obtain ⟨found, hfound, hiface⟩ := hlookup
  unfold awdsSocketRecvmsg
  rw [hfound, except_bind_ok]
  dsimp only
  split
  · -- The flags are not allowed.
    exact ⟨_, rfl⟩
  · cases a.peeked with
    | noPacket err => exact ⟨_, rfl⟩
    | packet dev len =>
      cases found with
      | none => exact ⟨_, rfl⟩
      -- The address is filled in from the interface, if there is one.
      | some p =>
        obtain ⟨q, hq⟩ := hiface p dev rfl
        dsimp only
        rw [hq, except_bind_ok]
        dsimp only
        split
        · exact ⟨_, rfl⟩
        · exact ⟨_, rfl⟩

/-- Every operation that is allowed returns to such a state. -/
theorem Sound.exec (h : Sound m n lists) {op : Op} (hok : Allowed net m op) :
    ∃ m' ret n' lists', m.exec net op = .ok (m', ret) ∧ Sound m' n' lists' := by
  cases op with
  | bind sk addr mem => exact h.bind hok
  | release sk stale => exact h.release hok
  | ioctl cmd u =>
    obtain ⟨m', ret, hrun, hsound⟩ := h.ioctl hok
    exact ⟨m', ret, n, lists, hrun, hsound⟩
  | recvmsg sk a =>
    obtain ⟨ret, hrun⟩ := h.recvmsg hok a
    exact ⟨m, ret, n, lists, hrun, h⟩

/-- The runs of the module from its loading, with operations that are allowed. -/
inductive OpRun : AwdsModule → Prop where
  | start : OpRun {}
  | step {m m' : AwdsModule} {net : Net} {op : Op} {ret : Int} : OpRun m → Allowed net m op →
    m.exec net op = .ok (m', ret) → OpRun m'

/-- Every run ends in a sound state, by induction on the run. -/
theorem sound_of_run (h : OpRun m) : ∃ n lists, Sound m n lists := by
  induction h with
  | start => exact ⟨0, _, .start⟩
  | step _ hok hrun ih =>
    obtain ⟨n, lists, hsound⟩ := ih
    obtain ⟨m', ret, n', lists', hrun', hsound'⟩ := hsound.exec hok
    rw [hrun] at hrun'
    cases hrun'
    exact ⟨n', lists', hsound'⟩

/-- The mutexes are as they were on entry: `awds_instance_mutex` and the lock of every instance
that is still there. A new instance is not locked. -/
def SameLocks (m m' : AwdsModule) : Prop :=
  m'.mutex = m.mutex ∧ ∀ p inst', m'.instances p = some inst' →
    inst'.locked = (m.instances p).elim false AwdsInstance.locked

/-- In every run of operations that are allowed, each further one returns, which says that it
neither waits for a mutex that it holds nor unlocks one that is free, and it leaves all mutexes
as they were. -/
theorem locks_balanced (h : OpRun m) {op : Op} (hok : Allowed net m op) :
    ∃ m' ret, m.exec net op = .ok (m', ret) ∧ SameLocks m m' := by
  obtain ⟨n, lists, hsound⟩ := sound_of_run h
  obtain ⟨m', ret, n', lists', hrun, hsound'⟩ := hsound.exec hok
  refine ⟨m', ret, hrun, hsound'.mutex.trans hsound.mutex.symm, fun p inst' hp => ?_⟩
  rw [hsound'.unlocked p inst' hp]
  cases hinst : m.instances p with
  | none => rfl
  | some inst => exact (hsound.unlocked p inst hinst).symm

/-- A socket is bound to one device and then to a second one. -/
theorem locks_balanced_second_bind : ∃ m m' : AwdsModule, OpRun m ∧
    (m.instances 0).isSome = true ∧ m.exec twoDevices (.bind 1 ⟨2, []⟩ {}) = .ok (m', 0) ∧
    SameLocks m m' := by
  -- The first bind is allowed, because no slot is in use.
  have hstart : Allowed twoDevices {} (.bind 1 ⟨1, []⟩ {}) := by
    have hnone : ∀ k, ¬ Used ({} : AwdsModule) k := fun k hk => by
      have hneg : (k : Int) ≤ -1 := hk
      omega
    exact ⟨fun k hk => absurd hk (hnone k), fun _ _ hbound => absurd hbound.choose_spec.1 (hnone _)⟩
  obtain ⟨m, hfirst, htop, hslot, hlive, hinterf, hend, hsecond⟩ : ∃ m : AwdsModule,
      ({} : AwdsModule).exec twoDevices (.bind 1 ⟨1, []⟩ {}) = .ok (m, 0) ∧
      m.awdsInstanceIndex = 0 ∧ m.awdsInstances 0 = some 0 ∧ (m.instances 0).isSome = true ∧
      (m.socks 1).interf = some 1 ∧ (m.interfaces 1).map AwdsInterface.next = some none ∧
      (m.exec twoDevices (.bind 1 ⟨2, []⟩ {})).toOption.map Prod.snd = some 0 :=
    ⟨_, rfl, rfl, rfl, rfl, rfl, rfl, rfl⟩
  have hrun : OpRun m := .step .start hstart hfirst
  -- The second one is allowed, too: slot 0 has the socket, and its list has one interface.
  have hok : Allowed twoDevices m (.bind 1 ⟨2, []⟩ {}) := by
    refine ⟨fun k hk hempty => ?_, fun ps dev _ hlinks _ => ?_⟩
    · have hzero : k = 0 := by
        unfold Used at hk
        omega
      rw [hzero, hslot] at hempty
      cases hempty
    · -- the socket has one interface
      rw [hinterf] at hlinks
      rcases ps with _ | ⟨q, _ | ⟨r, ps⟩⟩
      · exact Nat.zero_le _
      · exact Nat.le_refl _
      · obtain ⟨hq, i, hi, _, hnext, _⟩ := hlinks
        cases hq
        rw [hi, Option.map_some, hnext] at hend
        cases hend
  obtain ⟨m', ret, hexec, hsame⟩ := locks_balanced hrun hok
  rw [hexec] at hsecond
  have hret : ret = 0 := Option.some.inj hsecond
  exact ⟨m, m', hrun, hlive, hret ▸ hexec, hsame⟩

/-- An `ioctl` of the kernel's own, `SIOCGIFINDEX`, makes the module unlock a mutex that is
free. The third `bind` of a socket returns with the lock of its instance held, so that the next
one waits for itself. -/
theorem locks_not_balanced :
    ({} : AwdsModule).exec threeDevices (.ioctl 0x8933 { data := fun _ => 0 }) = .error .notLocked ∧
    ∃ m m' : AwdsModule, bindAll threeDevices 1 {} [⟨1, []⟩, ⟨2, []⟩] = .ok (m, [0, 0]) ∧
      m.exec threeDevices (.bind 1 ⟨3, []⟩ {}) = .ok (m', 1) ∧ ¬ SameLocks m m' ∧
      m'.exec threeDevices (.bind 1 ⟨1, []⟩ {}) = .error .deadlock := by
  refine ⟨rfl, _, _, rfl, rfl, fun hsame => ?_, rfl⟩
  have hlock : true = false := hsame.2 0 _ rfl
  cases hlock

end

end Awds.Proofs
