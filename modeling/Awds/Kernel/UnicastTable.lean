import Awds.Kernel.Packets

/-!
# `Awds.Kernel.UnicastTable`: the table of unicast destinations in memory

`UcDestTable` of `Awds.Kernel.State` has the entries of the table as a list, with a flag for a
first entry that was freed. Here are the same operations with the doubly linked list they run
on: the loop of `awds_check_unicast_table` unlinks and frees entries, and
`awds_instert_unicast_table` puts one in front of the first entry.

`kmalloc` returns addresses that have not been used before. An access to an address without an
entry is a use after free.
-/

set_option autoImplicit false

namespace Awds.Kernel

open Awds.Lib

/-- `struct awds_uc_dest_table`: an entry with its links. -/
structure AwdsUcDestTable extends UcDest where
  prev : Option Nat
  next : Option Nat
  deriving DecidableEq, Repr

/-- The entries in memory, `sk->table`, and the address of the next `kmalloc`. -/
structure UcDestHeap where
  heap : Nat → Option AwdsUcDestTable := fun _ => none
  table : Option Nat := none
  nextPtr : Nat := 0

namespace UcDestHeap

/-- Reads an entry. -/
def entry (s : UcDestHeap) (p : Nat) : KResult AwdsUcDestTable :=
  match s.heap p with
  | none => .error .useAfterFree
  | some e => .ok e

/-- Writes an entry. -/
def setEntry (s : UcDestHeap) (p : Nat) (e : AwdsUcDestTable) : UcDestHeap :=
  { s with heap := Function.update s.heap p (some e) }

def kfree (s : UcDestHeap) (p : Nat) : UcDestHeap :=
  { s with heap := Function.update s.heap p none }

/-- `tbl->prev->next = tbl->next`, if there is an entry in front of `tbl`. -/
def unlinkPrev (s : UcDestHeap) (tbl : Nat) : KResult UcDestHeap := do
  let e ← s.entry tbl
  match e.prev with
  | none => .ok s
  | some q => do
    let f ← s.entry q
    .ok (s.setEntry q { f with next := e.next })

/-- `tbl->next->prev = tbl->prev`, if there is an entry behind `tbl`. -/
def unlinkNext (s : UcDestHeap) (tbl : Nat) : KResult UcDestHeap := do
  let e ← s.entry tbl
  match e.next with
  | none => .ok s
  | some q => do
    let f ← s.entry q
    .ok (s.setEntry q { f with prev := e.prev })

/-- The removal of an entry that is too old, with the entry behind it. `sk->table` is left as it
is. -/
def remove (s : UcDestHeap) (tbl : Nat) : KResult (UcDestHeap × Option Nat) := do
  let s ← s.unlinkPrev tbl
  let s ← s.unlinkNext tbl
  let e ← s.entry tbl
  .ok (s.kfree tbl, e.next)

/-- The loop of `awds_check_unicast_table`, at most `n` turns. -/
def checkLoop (now : Int) (mac : List UInt8) :
    Nat → UcDestHeap → Option Nat → KResult (UcDestHeap × Option Nat)
  | 0, _, _ => .error .diverges
  | _ + 1, s, none => .ok (s, none)
  | n + 1, s, some tbl => do
    let e ← s.entry tbl
    -- try to find our destination
    if e.mac = mac then .ok (s, some tbl)
    else if UcDestTable.tooOld now e.toUcDest then do
      let (s, tmp) ← s.remove tbl
      checkLoop now mac n s tmp
    else checkLoop now mac n s e.next

/-- The loop of `awds_instert_unicast_table`, at most `n` turns: the first entry. -/
def findFirst : Nat → UcDestHeap → Nat → KResult Nat
  | 0, _, _ => .error .diverges
  | n + 1, s, p => do
    let e ← s.entry p
    match e.prev with
    | none => .ok p
    | some q => findFirst n s q

/-- `awds_instert_unicast_table`. -/
def awdsInstertUnicastTable (s : UcDestHeap) (env : RcvEnv) (mac : List UInt8) :
    KResult UcDestHeap :=
  match s.table with
  | some p => do
    -- find first, normally no while iteration necessary
    let first ← findFirst (s.nextPtr + 1) s p
    let f ← s.entry first
    if !env.kmallocOk then .ok { s.setEntry first { f with prev := none } with table := some first }
    else
      let new := s.nextPtr
      .ok { (s.setEntry first { f with prev := some new }).setEntry new
          { mac := mac, time := env.now, prev := none, next := some first } with
        table := some new
        nextPtr := new + 1 }
  | none =>
    if !env.kmallocOk then .ok s
    else
      let new := s.nextPtr
      .ok { s.setEntry new { mac := mac, time := env.now, prev := none, next := none } with
        table := some new
        nextPtr := new + 1 }

/-- `awds_check_unicast_table`. The flag says whether the packet may go to the local device. -/
def awdsCheckUnicastTable (s : UcDestHeap) (env : RcvEnv) (skb : SkBuff) :
    KResult (UcDestHeap × Bool) :=
  if skb.len < awdsHlen + ethAlen then .ok (s, false)
  else do
    let mac := skb.data.read awdsHlen ethAlen
    let (s, tbl) ← checkLoop env.now mac (s.nextPtr + 1) s s.table
    match tbl with
    | some p => do
      let e ← s.entry p
      -- too old, force update in user space
      if UcDestTable.tooOld env.now e.toUcDest then
        .ok (s.setEntry p { e with time := env.now }, false)
      else .ok (s, true)
    | none => do
      let s ← s.awdsInstertUnicastTable env mac
      .ok (s, false)

end UcDestHeap

end Awds.Kernel
