import Awds.Packet

/-!
# `Awds.Kernel.State`: the state of the kernel module

The module keeps an instance for every socket that is bound. The array `awds_instances` has a
separate top index, and every instance leads to its socket, whose interfaces form a doubly
linked list.

## Memory

An object is identified by a number that `kmalloc` hands out once. The maps `instances` and
`interfaces` hold the objects that are allocated; an access to another one is
`Oops.useAfterFree`, and one through a null pointer is `Oops.nullPointer`. A socket is
allocated by the kernel before the module sees it and outlives its instance.

## Mutexes

A mutex is held or not, and one thread runs. If it locks a mutex that it holds it waits for
itself, `Oops.deadlock`; to unlock a mutex that is not held is `Oops.notLocked`.

## What is left out

The reference count of a socket, the debug output and the wait queue: no modelled function
reads them. The names of functions that are called with the lock held (`__awds_…` in the
source) end in `Locked` here.
-/

set_option autoImplicit false

namespace Awds.Kernel

open Awds.Lib

/-- What ends an operation of the module. -/
inductive Oops where
  | nullPointer
  | useAfterFree
  | outOfBounds
  | deadlock
  | notLocked
  | diverges
  deriving DecidableEq, Repr

/-- The result of a function that may end in an oops. -/
abbrev KResult := Except Oops

/-! ### Constants -/

abbrev eawdsInval : Int := 1
abbrev eawdsExist : Int := 2
abbrev eawdsFull : Int := 3
abbrev eawdsNoMutex : Int := 4
abbrev eawdsMissing : Int := 5
abbrev enomem : Int := 12
abbrev efault : Int := 14
abbrev einval : Int := 22
abbrev enotty : Int := 25
abbrev eaddrinuse : Int := 98
abbrev enobufs : Int := 105
abbrev enoioctlcmd : Int := 515

/-- `MAX_AWDS_INDEX`, the last index of `awds_instances`. -/
abbrev maxAwdsIndex : Int := 3

/-- `ETH_ALEN`. -/
abbrev ethAlen : Nat := 6

/-! ### The data -/

abbrev InstancePtr := Nat
abbrev InterfacePtr := Nat
abbrev SockPtr := Nat
abbrev DevPtr := Nat

/-- `struct sockaddr_awds`. -/
structure SockaddrAwds where
  saIfindex : Int
  saAddr : List UInt8
  deriving DecidableEq, Repr

/-- `struct awds_interface`. -/
structure AwdsInterface where
  next : Option InterfacePtr := none
  prev : Option InterfacePtr := none
  index : Int
  dev : DevPtr
  addr : SockaddrAwds
  deriving DecidableEq, Repr

/-- An entry of the table of unicast destinations, `struct awds_uc_dest_table`. -/
structure UcDest where
  mac : List UInt8
  time : Int
  deriving DecidableEq, Repr

/-- The table of unicast destinations, from its first entry on. `freed` says that the memory
of the first entry was freed while `sk->table` points to it. `Awds.Kernel.UnicastTable` has the
doubly linked list. -/
structure UcDestTable where
  entries : List UcDest := []
  freed : Bool := false
  deriving DecidableEq, Repr

/-- `struct awds_sock`. -/
structure AwdsSock where
  ifcount : Int := 0
  interf : Option InterfacePtr := none
  table : UcDestTable := {}
  deriving DecidableEq, Repr

/-- `struct awds_instance`. `locked` is the state of its `lock`. -/
structure AwdsInstance where
  index : Int := -1
  sock : Option SockPtr
  locked : Bool := false
  deriving DecidableEq, Repr

/-- `struct awds_routing_entry`. -/
structure AwdsRoutingEntry where
  dest : List UInt8
  nexthop : List UInt8
  deriving DecidableEq, Repr

/-- `struct awds_packet_statistic`. The counters are 32-bit numbers. -/
structure AwdsPacketStatistic where
  rxTotalPackets : UInt32 := 0
  rxTotalUnicast : UInt32 := 0
  rxTotalBeacon : UInt32 := 0
  rxTotalFlood : UInt32 := 0
  rxTotalForeward : UInt32 := 0
  rxLocalUnicast : UInt32 := 0
  rxForwardedUnicast : UInt32 := 0
  rxFloodTopo : UInt32 := 0
  rxFloodMcast : UInt32 := 0
  rxFloodPrivate : UInt32 := 0
  deriving DecidableEq, Repr

/-- The variables of the module. `mutex` is the state of `awds_instance_mutex`, `devRefs`
counts the references to devices that the module holds, and `nextPtr` is the next address
that `kmalloc` hands out. -/
structure AwdsModule where
  instances : InstancePtr → Option AwdsInstance := fun _ => none
  interfaces : InterfacePtr → Option AwdsInterface := fun _ => none
  socks : SockPtr → AwdsSock := fun _ => {}
  awdsInstances : Nat → Option InstancePtr := fun _ => none
  awdsInstanceIndex : Int := -1
  mutex : Bool := false
  devRefs : DevPtr → Int := fun _ => 0
  nextPtr : Nat := 0
  awdsRouting : Option (List AwdsRoutingEntry) := none
  awdsRoutingCount : Nat := 0
  configuration : UInt16 := 3
  statistics : Bool := true
  awdsStats : AwdsPacketStatistic := {}

/-- The devices of the kernel, by index and by hardware address. -/
structure Net where
  devGetByIndex : Int → Option DevPtr
  devGetbyhwaddr : List UInt8 → Option DevPtr

namespace AwdsModule

/-! ### Memory -/

/-- Reads an instance. -/
def inst (m : AwdsModule) (p : InstancePtr) : KResult AwdsInstance :=
  match m.instances p with
  | none => .error .useAfterFree
  | some i => .ok i

/-- Reads an interface. -/
def iface (m : AwdsModule) (p : InterfacePtr) : KResult AwdsInterface :=
  match m.interfaces p with
  | none => .error .useAfterFree
  | some i => .ok i

/-- The pointer to the socket of an instance, which is dereferenced. -/
def sockOf (m : AwdsModule) (p : InstancePtr) : KResult SockPtr := do
  let i ← m.inst p
  match i.sock with
  | none => .error .nullPointer
  | some sk => .ok sk

/-- Writes an instance. -/
def setInst (m : AwdsModule) (p : InstancePtr) (i : Option AwdsInstance) : AwdsModule :=
  { m with instances := Function.update m.instances p i }

/-- Writes an interface. -/
def setIface (m : AwdsModule) (p : InterfacePtr) (i : Option AwdsInterface) : AwdsModule :=
  { m with interfaces := Function.update m.interfaces p i }

/-- Writes a socket. -/
def setSock (m : AwdsModule) (sk : SockPtr) (s : AwdsSock) : AwdsModule :=
  { m with socks := Function.update m.socks sk s }

/-- `dev_hold`, also as a part of `dev_get_by_index`. -/
def devHold (m : AwdsModule) (dev : DevPtr) : AwdsModule :=
  { m with devRefs := Function.update m.devRefs dev (m.devRefs dev + 1) }

/-- `dev_put`. -/
def devPut (m : AwdsModule) (dev : DevPtr) : AwdsModule :=
  { m with devRefs := Function.update m.devRefs dev (m.devRefs dev - 1) }

/-! ### Mutexes -/

/-- `mutex_lock(&awds_instance_mutex)`. -/
def lockMutex (m : AwdsModule) : KResult AwdsModule :=
  if m.mutex then .error .deadlock else .ok { m with mutex := true }

/-- `mutex_unlock(&awds_instance_mutex)`. -/
def unlockMutex (m : AwdsModule) : KResult AwdsModule :=
  if m.mutex then .ok { m with mutex := false } else .error .notLocked

/-- `mutex_lock(&instance->lock)`. -/
def lockInst (m : AwdsModule) (p : InstancePtr) : KResult AwdsModule := do
  let i ← m.inst p
  if i.locked then .error .deadlock else .ok (m.setInst p (some { i with locked := true }))

/-- `mutex_unlock(&instance->lock)`. -/
def unlockInst (m : AwdsModule) (p : InstancePtr) : KResult AwdsModule := do
  let i ← m.inst p
  if i.locked then .ok (m.setInst p (some { i with locked := false })) else .error .notLocked

/-! ### Finding interfaces -/

/-- The loop of `__awds_find_interface`, at most `n` turns. -/
def findInterfaceLoop (m : AwdsModule) (dev : DevPtr) :
    Nat → Option InterfacePtr → KResult (Option InterfacePtr)
  | 0, _ => .error .diverges
  | _ + 1, none => .ok none
  | n + 1, some p => do
    let i ← m.iface p
    if i.dev = dev then .ok (some p) else findInterfaceLoop m dev n i.next

/-- `__awds_find_interface`. There are at most `nextPtr` interfaces, so a walk with more
turns has come back to one of them and does not end. -/
def awdsFindInterfaceLocked (m : AwdsModule) (p : InstancePtr) (dev : DevPtr) :
    KResult (Option InterfacePtr) := do
  let i ← m.inst p
  if !i.locked then .ok none
  else do
    let sk ← m.sockOf p
    m.findInterfaceLoop dev (m.nextPtr + 1) (m.socks sk).interf

/-- `awds_find_interface`. -/
def awdsFindInterface (m : AwdsModule) (p : InstancePtr) (dev : DevPtr) :
    KResult (AwdsModule × Option InterfacePtr) := do
  let m ← m.lockInst p
  let found ← m.awdsFindInterfaceLocked p dev
  let m ← m.unlockInst p
  .ok (m, found)

/-! ### Finding instances -/

/-- The loop of `__awds_find_instance_index_by_sock` from the slot `i` on, with the number of
slots that are left. A slot is dereferenced without a check. -/
def findIndexLoop (m : AwdsModule) (sk : SockPtr) : Nat → Nat → KResult Int
  | 0, _ => .ok (-eawdsMissing)
  | n + 1, i => match m.awdsInstances i with
    | none => .error .nullPointer
    | some p => do
      let inst ← m.inst p
      if inst.sock = some sk then .ok i else findIndexLoop m sk n (i + 1)

/-- `__awds_find_instance_index_by_sock`. -/
def awdsFindInstanceIndexBySockLocked (m : AwdsModule) (sk : SockPtr) : KResult Int :=
  if !m.mutex then .ok (-eawdsNoMutex)
  else m.findIndexLoop sk (m.awdsInstanceIndex + 1).toNat 0

/-- `__awds_find_instance_by_sock`. -/
def awdsFindInstanceBySockLocked (m : AwdsModule) (sk : SockPtr) :
    KResult (Option InstancePtr) :=
  if !m.mutex then .ok none
  else do
    let index ← m.awdsFindInstanceIndexBySockLocked sk
    if index = -eawdsMissing then .ok none else .ok (m.awdsInstances index.toNat)

/-- `awds_find_instance_by_sock`. -/
def awdsFindInstanceBySock (m : AwdsModule) (sk : SockPtr) :
    KResult (AwdsModule × Option InstancePtr) := do
  let m ← m.lockMutex
  let found ← m.awdsFindInstanceBySockLocked sk
  let m ← m.unlockMutex
  .ok (m, found)

/-- The loop of `__awds_find_instance_by_dev`. -/
def findByDevLoop (dev : DevPtr) : Nat → Nat → AwdsModule →
    KResult (AwdsModule × Option InstancePtr)
  | 0, _, m => .ok (m, none)
  | n + 1, i, m => match m.awdsInstances i with
    | none => .error .nullPointer
    | some p => do
      let (m, found) ← m.awdsFindInterface p dev
      if found.isSome then .ok (m, some p) else findByDevLoop dev n (i + 1) m

/-- `__awds_find_instance_by_dev`. Nothing is found while `awds_instance_mutex` is free. -/
def awdsFindInstanceByDevLocked (m : AwdsModule) (dev : DevPtr) :
    KResult (AwdsModule × Option InstancePtr) :=
  if !m.mutex then .ok (m, none)
  else findByDevLoop dev (m.awdsInstanceIndex + 1).toNat 0 m

end AwdsModule

end Awds.Kernel
