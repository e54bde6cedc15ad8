import Awds.Proofs.Kernel.RoutingTable

/-!
# `Awds.Proofs.Kernel.RoutingIoctl`: the calls of `AIOCSRTTBL`

`AIOCSRTTBL` frees the routing table, allocates a new one and copies the entries from the
process. It writes the count of the entries behind the copy. The calls in between can fail, and
then the count is that of the table that was freed. `IoctlOutcome` lists the ways the call ends.

`HoldsTable` is the agreement of the table with its count. `routing_table_run` says which calls
keep it, report an error if they fail and leave the lookups with the previous table or an empty
one.
-/

set_option autoImplicit false

namespace Awds.Proofs

open Awds.Lib Awds.Kernel Awds.Kernel.AwdsModule

section
variable {m m' : AwdsModule} {u : UserMemory} {ret : Int} {es : List AwdsRoutingEntry}

/-! ### One call -/

/-- The table that the process has announced. -/
def announcedTable (u : UserMemory) : List AwdsRoutingEntry :=
  (List.range (u.int.toNat / routingEntrySize)).map u.entry

/-- The memory for the announced table before it is filled. -/
def unfilledTable (u : UserMemory) : List AwdsRoutingEntry :=
  (List.range (u.int.toNat / routingEntrySize)).map u.uninit

/-- The process and its length of the table can be read. -/
structure Readable (u : UserMemory) : Prop where
  accessOk : u.accessOk = true
  copyIntOk : u.copyIntOk = true
  length : ValidLength u.int

/-- The call installs the announced table. -/
structure Succeeds (u : UserMemory) : Prop extends Readable u where
  kmallocOk : u.kmallocOk = true
  copyTableOk : u.copyTableOk = true

instance (u : UserMemory) : Decidable (Succeeds u) :=
  decidable_of_iff (u.accessOk = true ∧ u.copyIntOk = true ∧ ValidLength u.int ∧
      u.kmallocOk = true ∧ u.copyTableOk = true)
    ⟨fun h => ⟨⟨h.1, h.2.1, h.2.2.1⟩, h.2.2.2.1, h.2.2.2.2⟩,
      fun h => ⟨h.accessOk, h.copyIntOk, h.length, h.kmallocOk, h.copyTableOk⟩⟩

/-- The ways the call ends, with the state behind it and the value it returns. -/
inductive IoctlOutcome (m : AwdsModule) (u : UserMemory) : AwdsModule → Int → Prop
  | refused (h : u.accessOk = false) : IoctlOutcome m u m (-efault)
  | unread (haccess : u.accessOk = true) (h : u.copyIntOk = false) : IoctlOutcome m u m 4
  | ignored (haccess : u.accessOk = true) (hint : u.copyIntOk = true) (h : ¬ValidLength u.int) :
      IoctlOutcome m u m 0
  | noMemory (hread : Readable u) (h : u.kmallocOk = false) :
      IoctlOutcome m u { m with awdsRouting := none } (-enomem)
  | unfilled (hread : Readable u) (hmalloc : u.kmallocOk = true) (h : u.copyTableOk = false) :
      IoctlOutcome m u { m with awdsRouting := some (unfilledTable u) } 0
  | installed (h : Succeeds u) : IoctlOutcome m u
      { m with
        awdsRouting := some (announcedTable u)
        awdsRoutingCount := u.int.toNat / routingEntrySize } 0

/-- The call returns, in one of these ways. -/
theorem awdsSocketIoctl_outcome (hfree : m.mutex = false) (u : UserMemory) :
    ∃ m' ret, m.awdsSocketIoctl aiocsrttbl u = .ok (m', ret) ∧ IoctlOutcome m u m' ret := by
  unfold awdsSocketIoctl
  rw [if_neg (by decide)]
  -- The branches of the source in their order.
  cases haccess : u.accessOk with
  | false => exact ⟨m, _, if_pos (by decide), .refused haccess⟩
  | true =>
    rw [if_neg (by simp), if_neg (by decide), if_neg (by decide), if_pos rfl]
    unfold setRoutingTable
    cases hint : u.copyIntOk with
    | false => exact ⟨m, 4, by simp, .unread haccess hint⟩
    | true =>
      by_cases hvalid : ValidLength u.int
      · -- The mutex is taken, and it is free again behind each of the three ways.
        have hread : Readable u := ⟨haccess, hint, hvalid⟩
        cases m
        simp only at hfree
        subst hfree
        cases hmalloc : u.kmallocOk with
        | false => exact ⟨_, _, by simp [hvalid, lockMutex, unlockMutex], .noMemory hread hmalloc⟩
        | true =>
          cases hcopy : u.copyTableOk with
          | false => exact ⟨_, _, by simp [hvalid, lockMutex, unlockMutex]; rfl,
              .unfilled hread hmalloc hcopy⟩
          | true => exact ⟨_, _, by simp [hvalid, lockMutex, unlockMutex]; rfl,
              .installed ⟨hread, hmalloc, hcopy⟩⟩
      · exact ⟨m, 0, by simp [hvalid], .ignored haccess hint hvalid⟩

/-- The call ends in the way that `m` and `u` say. -/
theorem IoctlOutcome.of_call (hfree : m.mutex = false)
    (h : m.awdsSocketIoctl aiocsrttbl u = .ok (m', ret)) : IoctlOutcome m u m' ret := by
  obtain ⟨m1, ret1, hrun, hout⟩ := awdsSocketIoctl_outcome hfree u
  rw [h] at hrun
  cases hrun
  exact hout

/-- No outcome of the call changes the mutex. -/
theorem IoctlOutcome.mutex (h : IoctlOutcome m u m' ret) : m'.mutex = m.mutex := by
  cases h with
  | refused h => rfl
  | unread haccess h => rfl
  | ignored haccess hint h => rfl
  | noMemory hread h => rfl
  | unfilled hread hmalloc h => rfl
  | installed h => rfl

/-! ### Lookups -/

/-- The search stays between its bounds and returns, whatever the order of the table is. -/
theorem searchLoop_returns (htable : m.awdsRouting = some es) (dest : List UInt8)
    {n head stop : Nat} (hle : head ≤ stop) (hstop : stop ≤ es.length)
    (hfuel : stop - head < n) :
    ∃ r, m.searchLoop dest n head stop = .ok r ∧ ∀ e, r = some e → e ∈ es := by
  induction n generalizing head stop with
  | zero => omega
  | succ n ih =>
    by_cases hempty : head = stop
    · exact ⟨none, by simp [searchLoop, hempty], by simp⟩
    · have hmid : head + (stop - head) / 2 < es.length := by omega
      have hentry := routingEntry_eq_ok htable hmid
      simp only [searchLoop, if_neg hempty, hentry, except_bind_ok]
      -- Both halves are shorter, since the middle is in front of `stop`.
      cases memcmp es[head + (stop - head) / 2].dest dest with
      | eq => exact ⟨_, rfl, by simp⟩
      | lt => exact ih (by omega) hstop (by omega)
      | gt => exact ih (by omega) (by omega) (by omega)

/-- The lookup of `skb` returns, and an entry that it finds is one of `es`. -/
def LooksUp (m : AwdsModule) (es : List AwdsRoutingEntry) (skb : SkBuff) : Prop :=
  ∃ r, m.awdsCheckRoutingLocked skb = .ok r ∧ ∀ e, r = some e → e ∈ es

/-- With an empty table the search finds nothing. -/
theorem checkRouting_of_empty (h : m.awdsRoutingCount = 0) (skb : SkBuff) :
    m.awdsCheckRoutingLocked skb = .ok none := if_pos h

/-- The search reads the table and its length, and nothing else. -/
theorem checkRouting_congr (htable : m'.awdsRouting = m.awdsRouting)
    (hcount : m'.awdsRoutingCount = m.awdsRoutingCount) (skb : SkBuff) :
    m'.awdsCheckRoutingLocked skb = m.awdsCheckRoutingLocked skb := by
  have hloop : ∀ dest n head stop,
      m'.searchLoop dest n head stop = m.searchLoop dest n head stop := by
    intro dest n
    induction n with
    | zero => exact fun _ _ => rfl
    | succ n ih =>
      intro head stop
      simp only [searchLoop, routingEntry, htable, ih]
  simp only [awdsCheckRoutingLocked, hcount, hloop]

end

/-! ### Runs -/

/-- The module with the entries of the last table that was copied. -/
structure TableState where
  module : AwdsModule
  copied : List AwdsRoutingEntry := []

section
variable {s : TableState} {m' : AwdsModule} {u : UserMemory} {ret : Int}

/-- The state behind a call that leaves the module `m'`. -/
def TableState.ioctl (s : TableState) (u : UserMemory) (m' : AwdsModule) : TableState where
  module := m'
  copied := if Succeeds u then announcedTable u else s.copied

/-- The table has as many entries as its count says, all of them copied. There is no table only
if the count is 0. -/
def HoldsTable (s : TableState) : Prop :=
  match s.module.awdsRouting with
  | none => s.module.awdsRoutingCount = 0
  | some es => es = s.copied ∧ es.length = s.module.awdsRoutingCount

/-- What is expected of a call: it keeps the table, and if it fails it returns an error and the
lookups see the table as it was or an empty one. -/
structure IoctlOk (s : TableState) (u : UserMemory) (m' : AwdsModule) (ret : Int) : Prop where
  table : HoldsTable (s.ioctl u m')
  reports : ¬Succeeds u → ret < 0
  lookups : ¬Succeeds u →
    (∀ skb, m'.awdsCheckRoutingLocked skb = s.module.awdsCheckRoutingLocked skb) ∨
      ∀ skb, m'.awdsCheckRoutingLocked skb = .ok none

/-- The process may not be read at all, or the call succeeds, or there is no memory for a table
in a module without one. -/
def KeepsTable (s : TableState) (u : UserMemory) : Prop :=
  u.accessOk = false ∨ Succeeds u ∨
    (Readable u ∧ u.kmallocOk = false ∧ s.module.awdsRoutingCount = 0)

/-- The announced table has as many entries as fit in its size. -/
theorem length_announcedTable (u : UserMemory) :
    (announcedTable u).length = u.int.toNat / routingEntrySize := by
  simp [announcedTable]

/-- Without a table the count has to be zero. -/
theorem HoldsTable.of_none (htable : s.module.awdsRouting = none) :
    HoldsTable s ↔ s.module.awdsRoutingCount = 0 := by
  simp [HoldsTable, htable]

/-- The calls that do what is expected of them. -/
theorem ioctlOk_iff (h : HoldsTable s) (hout : IoctlOutcome s.module u m' ret) :
    IoctlOk s u m' ret ↔ KeepsTable s u := by
  -- A call that fails does not change what was copied.
  have hcopied : ¬Succeeds u → (s.ioctl u m').copied = s.copied := fun hfails => if_neg hfails
  cases hout with
  | refused haccess =>
    have hfails : ¬Succeeds u := fun hs => by simp [hs.accessOk] at haccess
    refine iff_of_true ⟨?_, fun _ => by decide, fun _ => .inl fun _ => rfl⟩ (.inl haccess)
    unfold HoldsTable at h ⊢
    rw [hcopied hfails]
    exact h
  | unread haccess hint =>
    have hfails : ¬Succeeds u := fun hs => by simp [hs.copyIntOk] at hint
    refine iff_of_false (fun hok => absurd (hok.reports hfails) (by decide)) ?_
    rintro (hc | hc | ⟨hc, -⟩)
    · simp [haccess] at hc
    · exact hfails hc
    · simp [hc.copyIntOk] at hint
  | ignored haccess hint hlength =>
    have hfails : ¬Succeeds u := fun hs => hlength hs.length
    refine iff_of_false (fun hok => absurd (hok.reports hfails) (by decide)) ?_
    rintro (hc | hc | ⟨hc, -⟩)
    · simp [haccess] at hc
    · exact hfails hc
    · exact hlength hc.length
  | noMemory hread hmalloc =>
    have hfails : ¬Succeeds u := fun hs => by simp [hs.kmallocOk] at hmalloc
    have hnone : HoldsTable (s.ioctl u { s.module with awdsRouting := none }) ↔
        s.module.awdsRoutingCount = 0 := HoldsTable.of_none rfl
    constructor
    · exact fun hok => .inr (.inr ⟨hread, hmalloc, hnone.mp hok.table⟩)
    · rintro (hc | hc | ⟨-, -, hcount⟩)
      · simp [hread.accessOk] at hc
      · exact absurd hc hfails
      · exact ⟨hnone.mpr hcount, fun _ => by decide,
          fun _ => .inr fun _ => if_pos hcount⟩
  | unfilled hread hmalloc hcopy =>
    have hfails : ¬Succeeds u := fun hs => by simp [hs.copyTableOk] at hcopy
    refine iff_of_false (fun hok => absurd (hok.reports hfails) (by decide)) ?_
    rintro (hc | hc | ⟨-, hc, -⟩)
    · simp [hread.accessOk] at hc
    · exact hfails hc
    · simp [hmalloc] at hc
  | installed hs =>
    refine iff_of_true ⟨?_, fun hfails => absurd hs hfails, fun hfails => absurd hs hfails⟩
      (.inr (.inl hs))
    exact ⟨(if_pos hs).symm, length_announcedTable u⟩

/-- The lookups in a table that agrees with its count. -/
theorem HoldsTable.looksUp (h : HoldsTable s) (skb : SkBuff) : LooksUp s.module s.copied skb := by
  by_cases hcount : s.module.awdsRoutingCount = 0
  · exact ⟨none, checkRouting_of_empty hcount skb, by simp⟩
  · cases htable : s.module.awdsRouting with
    | none => exact absurd ((HoldsTable.of_none htable).mp h) hcount
    | some es =>
      unfold HoldsTable at h
      rw [htable] at h
      obtain ⟨rfl, hlen⟩ := h
      have hrun := searchLoop_returns htable (skb.data.read awdsDestOffset ethAlen)
        (n := s.module.awdsRoutingCount + 1) (Nat.zero_le s.module.awdsRoutingCount) hlen.ge
        (by omega)
      simpa only [LooksUp, awdsCheckRoutingLocked, if_neg hcount] using hrun

/-- A run of calls of `AIOCSRTTBL` that meet the condition, from a module without a table. In
between, the module does other things, which leave the table and its count as they are. -/
inductive IoctlRun (cond : TableState → UserMemory → Prop) : TableState → Prop
  | start {m : AwdsModule} (htable : m.awdsRouting = none) (hcount : m.awdsRoutingCount = 0)
      (hfree : m.mutex = false) : IoctlRun cond ⟨m, []⟩
  | ioctl {s : TableState} {u : UserMemory} {m' : AwdsModule} {ret : Int} (run : IoctlRun cond s)
      (hcond : cond s u) (hcall : s.module.awdsSocketIoctl aiocsrttbl u = .ok (m', ret)) :
      IoctlRun cond (s.ioctl u m')
  | elsewhere {s : TableState} {m' : AwdsModule} (run : IoctlRun cond s)
      (htable : m'.awdsRouting = s.module.awdsRouting)
      (hcount : m'.awdsRoutingCount = s.module.awdsRoutingCount) (hfree : m'.mutex = false) :
      IoctlRun cond { s with module := m' }

/-- The calls leave the mutex free. -/
theorem IoctlRun.free {cond : TableState → UserMemory → Prop} (h : IoctlRun cond s) :
    s.module.mutex = false := by
  induction h with
  | start htable hcount hfree => exact hfree
  | ioctl run hcond hcall ih => exact (IoctlOutcome.of_call ih hcall).mutex.trans ih
  | elsewhere run htable hcount hfree ih => exact hfree

/-- Every run ends with the table that was announced last. -/
theorem IoctlRun.holdsTable (h : IoctlRun KeepsTable s) : HoldsTable s := by
  induction h with
  | start htable hcount hfree => exact (HoldsTable.of_none htable).mpr hcount
  | ioctl run hkeeps hcall ih =>
    exact ((ioctlOk_iff ih (IoctlOutcome.of_call run.free hcall)).mpr hkeeps).table
  | elsewhere run htable hcount hfree ih => simpa only [HoldsTable, htable, hcount] using ih

/-- In every run of calls of `AIOCSRTTBL` that meet the condition, the table has exactly as many
copied entries as its count says, and every lookup returns and finds one of these or nothing.
The next call returns too, and it does what is expected of it if and only if it meets the
condition. -/
theorem routing_table_run (h : IoctlRun KeepsTable s) :
    HoldsTable s ∧ (∀ skb, LooksUp s.module s.copied skb) ∧ ∀ u, ∃ m' ret,
      s.module.awdsSocketIoctl aiocsrttbl u = .ok (m', ret) ∧
      (IoctlOk s u m' ret ↔ KeepsTable s u) := by
  refine ⟨h.holdsTable, h.holdsTable.looksUp, fun u => ?_⟩
  obtain ⟨m', ret, hrun, hout⟩ := awdsSocketIoctl_outcome h.free u
  exact ⟨m', ret, hrun, ioctlOk_iff h.holdsTable hout⟩

/-- A table with one entry. -/
def oneEntry : UserMemory where
  data i := if i = 0 then 12 else 0

/-- The module behind the call that installs it. -/
theorem ioctl_oneEntry : ∃ m', AwdsModule.awdsSocketIoctl {} aiocsrttbl oneEntry = .ok (m', 0) ∧
    m'.awdsRoutingCount = 1 := by
  obtain ⟨m', h⟩ := installs_of_valid (m := {}) (u := oneEntry) rfl (by decide) rfl rfl rfl rfl
  refine ⟨m', h.returned, ?_⟩
  rw [h.eq]
  show oneEntry.int.toNat / routingEntrySize = 1
  decide

/-- The call with one entry succeeds. -/
theorem succeeds_oneEntry : Succeeds oneEntry := ⟨⟨rfl, rfl, by decide⟩, rfl, rfl⟩

/-- A run that installs the table. -/
theorem routing_table_run_one : ∃ s, IoctlRun KeepsTable s ∧ s.module.awdsRoutingCount = 1 ∧
    HoldsTable s ∧ ∀ skb, LooksUp s.module s.copied skb := by
  obtain ⟨m', hcall, hcount⟩ := ioctl_oneEntry
  have hrun : IoctlRun KeepsTable _ :=
    (IoctlRun.start rfl rfl rfl).ioctl (.inr (.inl succeeds_oneEntry)) hcall
  exact ⟨_, hrun, hcount, (routing_table_run hrun).1, (routing_table_run hrun).2.1⟩

/-- There is no memory for the second table. The first one is freed by then, and its count
stays. -/
theorem routing_table_lost : ¬∀ s : TableState, IoctlRun (fun _ _ => True) s →
    HoldsTable s ∧ ∀ u m' ret,
      s.module.awdsSocketIoctl aiocsrttbl u = .ok (m', ret) → IoctlOk s u m' ret := by
  intro hclaim
  obtain ⟨m', hcall, hcount⟩ := ioctl_oneEntry
  have hrun : IoctlRun (fun _ _ => True) ⟨m', announcedTable oneEntry⟩ := by
    have hstart : IoctlRun (fun _ _ => True) ⟨{}, []⟩ := .start rfl rfl rfl
    simpa [TableState.ioctl, succeeds_oneEntry] using hstart.ioctl trivial hcall
  have hsecond := (hclaim _ hrun).2 { oneEntry with kmallocOk := false }
  obtain ⟨m2, ret, hlost, hout⟩ :=
    awdsSocketIoctl_outcome hrun.free { oneEntry with kmallocOk := false }
  have hok := (ioctlOk_iff (hclaim _ hrun).1 hout).mp (hsecond m2 ret hlost)
  rcases hok with hc | hc | ⟨-, -, hc⟩
  · cases hc
  · cases hc.kmallocOk
  · simp [hcount] at hc

end

end Awds.Proofs
