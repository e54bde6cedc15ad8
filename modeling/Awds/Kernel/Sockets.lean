import Awds.Kernel.State

/-!
# `Awds.Kernel.Sockets`: the socket operations of the kernel module

The operations that a process can call on a socket of the module: `bind`, `release`, `ioctl`
and `recvmsg`, with the functions they are made of.

`Memory` says which of the allocations of a `bind` succeed. The loop of
`__awds_release_instance` reads the field `next` of an interface that has just been freed.
What such a read returns is not specified, so it is a parameter, `stale`.

`UserMemory` is the memory that an `ioctl` reads, with the calls that fail. The number `cmd`
of an `ioctl` has the fields of `asm-generic/ioctl.h`; a pointer has 8 bytes.

`Op` is one call, and `exec` is its effect with the value it returns.
-/

set_option autoImplicit false

namespace Awds.Kernel

open Awds.Lib

namespace AwdsModule

/-! ### Interfaces -/

/-- The loop of `__awds_add_interface`, at most `n` turns: the last interface of the list
behind `iter` and its number. Nothing is returned if the new interface is in the list. -/
def lastInterface (m : AwdsModule) (new : InterfacePtr) :
    Nat → InterfacePtr → Nat → KResult (Option (InterfacePtr × Nat))
  | 0, _, _ => .error .diverges
  | n + 1, iter, numberIf => do
    let i ← m.iface iter
    match i.next with
    | none => .ok (some (iter, numberIf))
    | some next => if iter = new then .ok none else lastInterface m new n next (numberIf + 1)

/-- The end of `__awds_add_interface`: the index of the interface and the counter of the
socket. -/
def countInterface (m : AwdsModule) (sk : SockPtr) (new : InterfacePtr) (numberIf : Nat) :
    KResult (AwdsModule × Int) := do
  let i ← m.iface new
  let m := m.setIface new (some { i with index := numberIf })
  .ok (m.setSock sk { m.socks sk with ifcount := (m.socks sk).ifcount + 1 }, numberIf)

/-- `__awds_add_interface`. The number of the interface is returned. -/
def awdsAddInterfaceLocked (m : AwdsModule) (p : InstancePtr) (new : InterfacePtr) :
    KResult (AwdsModule × Int) := do
  let inst ← m.inst p
  if !inst.locked then .ok (m, -eawdsNoMutex)
  else do
    let sk ← m.sockOf p
    match (m.socks sk).interf with
    | none => countInterface (m.setSock sk { m.socks sk with interf := some new }) sk new 0
    | some first =>
      -- this interface exists already in our list
      if first = new then .ok (m, -eawdsInval)
      else match ← m.lastInterface new (m.nextPtr + 1) first 0 with
        | none => .ok (m, -eawdsInval)
        | some (last, numberIf) => do
          let l ← m.iface last
          let m := m.setIface last (some { l with next := some new })
          let i ← m.iface new
          let m := m.setIface new (some { i with prev := some last })
          m.countInterface sk new numberIf

/-- `awds_add_interface`. -/
def awdsAddInterface (m : AwdsModule) (p : InstancePtr) (new : InterfacePtr) :
    KResult (AwdsModule × Int) := do
  let m ← m.lockInst p
  let (m, ret) ← m.awdsAddInterfaceLocked p new
  let m ← m.unlockInst p
  .ok (m, ret)

/-- The interface in front of `i` is linked to the one behind it. -/
def skipNext (m : AwdsModule) (i : AwdsInterface) : KResult AwdsModule :=
  match i.prev with
  | none => .ok m
  | some q => do
    let j ← m.iface q
    .ok (m.setIface q (some { j with next := i.next }))

/-- The interface behind `i` is linked to the one in front of it. -/
def skipPrev (m : AwdsModule) (i : AwdsInterface) : KResult AwdsModule :=
  match i.next with
  | none => .ok m
  | some q => do
    let j ← m.iface q
    .ok (m.setIface q (some { j with prev := i.prev }))

/-- `__awds_del_interface`. The head of the list, `sk->interf`, stays, and the fields that are
cleared in front of `kfree` are not kept. -/
def awdsDelInterfaceLocked (m : AwdsModule) (p : InstancePtr) (ptr : InterfacePtr) :
    KResult (AwdsModule × Int) := do
  let inst ← m.inst p
  if !inst.locked then .ok (m, -eawdsNoMutex)
  else do
    let i ← m.iface ptr
    let m ← m.skipNext i
    let m ← m.skipPrev i
    let m := (m.devPut i.dev).setIface ptr none
    let sk ← m.sockOf p
    .ok (m.setSock sk { m.socks sk with ifcount := (m.socks sk).ifcount - 1 }, 0)

/-- `awds_release_interface`. It returns without unlocking the instance. -/
def awdsReleaseInterface (m : AwdsModule) (p : InstancePtr) (ptr : InterfacePtr) :
    KResult (AwdsModule × Int) := do
  let m ← m.lockInst p
  let (m, _) ← m.awdsDelInterfaceLocked p ptr
  .ok (m, 0)

end AwdsModule

/-- The calls of `kmalloc` in a `bind` that succeed. -/
structure Memory where
  instOk : Bool := true
  ifaceOk : Bool := true
  addrOk : Bool := true
  deriving DecidableEq, Repr

namespace AwdsModule

/-- `awds_create_interface`. -/
def awdsCreateInterface (net : Net) (mem : Memory) (m : AwdsModule) (p : InstancePtr)
    (addr : SockaddrAwds) : KResult (AwdsModule × Int) :=
  match net.devGetByIndex addr.saIfindex with
  | none => .ok (m, -eawdsInval)
  | some dev => do
    let m := m.devHold dev
    let (m, found) ← m.awdsFindInterface p dev
    if found.isSome then .ok (m.devPut dev, -eaddrinuse)
    else if !mem.ifaceOk then .ok (m.devPut dev, -enobufs)
    else
      let new := m.nextPtr
      let m := { m with nextPtr := m.nextPtr + 1 }
      if !mem.addrOk then .ok (m.devPut dev, -enobufs)
      else do
        let m := m.setIface new (some { index := addr.saIfindex, dev := dev, addr := addr })
        let (m, ret) ← m.awdsAddInterface p new
        if ret = 0 then .ok (m, ret)
        else do
          -- the reference is dropped in awds_release_interface
          let (m, _) ← m.awdsReleaseInterface p new
          .ok (m, ret)

/-! ### Instances -/

/-- `__awds_add_instance`. The loop that looks for the instance compares the top slot in
every turn. -/
def awdsAddInstanceLocked (m : AwdsModule) (p : InstancePtr) : KResult (AwdsModule × Int) :=
  if !m.mutex then .ok (m, -eawdsNoMutex)
  else if 0 ≤ m.awdsInstanceIndex ∧ m.awdsInstances m.awdsInstanceIndex.toNat = some p then
    .ok (m, -eawdsExist)
  else if m.awdsInstanceIndex = maxAwdsIndex then .ok (m, -eawdsFull)
  else do
    let newIndex := m.awdsInstanceIndex + 1
    let i ← m.inst p
    let m := m.setInst p (some { i with index := newIndex })
    .ok ({ m with
      awdsInstanceIndex := newIndex
      awdsInstances := Function.update m.awdsInstances newIndex.toNat (some p) }, 0)

/-- The loop of `__awds_del_instance`: the first slot from `i` on that holds the instance. -/
def slotOf (m : AwdsModule) (p : InstancePtr) : Nat → Nat → Option Nat
  | 0, _ => none
  | n + 1, i => if m.awdsInstances i = some p then some i else slotOf m p n (i + 1)

/-- `__awds_del_instance`. The slots above the instance stay where they are. -/
def awdsDelInstanceLocked (m : AwdsModule) (p : InstancePtr) : KResult (AwdsModule × Int) := do
  let i ← m.inst p
  if !m.mutex then .ok (m, -eawdsNoMutex)
  else match m.slotOf p (m.awdsInstanceIndex + 1).toNat 0 with
    | none => .ok (m, -eawdsInval)
    | some slot =>
      let m := m.setInst p (some { i with index := -1, sock := none })
      .ok ({ m with
        awdsInstances := Function.update m.awdsInstances slot none
        awdsInstanceIndex := m.awdsInstanceIndex - 1 }, 0)

/-- `__awds_create_instance`. -/
def awdsCreateInstanceLocked (net : Net) (mem : Memory) (m : AwdsModule) (sk : SockPtr)
    (addr : SockaddrAwds) : KResult (AwdsModule × Int) :=
  if maxAwdsIndex ≤ m.awdsInstanceIndex then
    .ok ({ m with awdsInstanceIndex := maxAwdsIndex }, -enobufs)
  else if !mem.instOk then .ok (m, -enobufs)
  else do
    let p := m.nextPtr
    let m := { m with nextPtr := m.nextPtr + 1 }.setInst p (some { sock := some sk })
    let m := m.setSock sk { m.socks sk with interf := none, table := {} }
    let (m, ret) ← m.awdsCreateInterface net mem p addr
    if ret = 0 then do
      let (m, _) ← m.awdsAddInstanceLocked p
      .ok (m, ret)
    else .ok (m.setInst p none, ret)

/-- The field `next` of an interface that may have been freed. -/
def readNext (m : AwdsModule) (stale : InterfacePtr → Option InterfacePtr)
    (ptr : InterfacePtr) : Option InterfacePtr :=
  match m.interfaces ptr with
  | none => stale ptr
  | some i => i.next

/-- The loop of `__awds_release_instance`, at most `n` turns. -/
def releaseLoop (stale : InterfacePtr → Option InterfacePtr) (p : InstancePtr) :
    Nat → Option InterfacePtr → AwdsModule → KResult (AwdsModule × Int)
  | 0, _, _ => .error .diverges
  | _ + 1, none, m => .ok (m, 0)
  | n + 1, some ptr, m => do
    let (m, ret) ← m.awdsReleaseInterface p ptr
    if ret ≠ 0 then .ok (m, ret) else releaseLoop stale p n (m.readNext stale ptr) m

/-- `__awds_release_instance`. -/
def awdsReleaseInstanceLocked (stale : InterfacePtr → Option InterfacePtr) (m : AwdsModule)
    (p : InstancePtr) : KResult (AwdsModule × Int) :=
  if !m.mutex then .ok (m, -eawdsNoMutex)
  else do
    let sk ← m.sockOf p
    let first := (m.socks sk).interf
    let m := m.setSock sk { m.socks sk with interf := none }
    let (m, ret) ← releaseLoop stale p (m.nextPtr + 2) first m
    if ret ≠ 0 then .ok (m, ret)
    else do
      let (m, ret) ← m.awdsDelInstanceLocked p
      if ret = 0 then .ok (m.setInst p none, ret) else .ok (m, ret)

/-! ### Operations -/

/-- The two cases of `awds_socket_bind`: a socket with an instance and one without. -/
def bindInstance (net : Net) (mem : Memory) (m : AwdsModule) (sk : SockPtr)
    (addr : SockaddrAwds) : Option InstancePtr → KResult (AwdsModule × Int)
  | some p => m.awdsCreateInterface net mem p addr
  | none => m.awdsCreateInstanceLocked net mem sk addr

/-- `awds_socket_bind`. -/
def awdsSocketBind (net : Net) (mem : Memory) (m : AwdsModule) (sk : SockPtr)
    (addr : SockaddrAwds) : KResult (AwdsModule × Int) := do
  let m ← m.lockMutex
  let instance? ← m.awdsFindInstanceBySockLocked sk
  let (m, res) ← m.bindInstance net mem sk addr instance?
  let m ← m.unlockMutex
  .ok (m, res)

/-- The two cases of `awds_socket_release`. -/
def releaseInstance (stale : InterfacePtr → Option InterfacePtr) (m : AwdsModule) :
    Option InstancePtr → KResult (AwdsModule × Int)
  | some p => m.awdsReleaseInstanceLocked stale p
  | none => .ok (m, -eawdsInval)

/-- `awds_socket_release`. The result of the release is not returned. -/
def awdsSocketRelease (stale : InterfacePtr → Option InterfacePtr) (m : AwdsModule)
    (sk : SockPtr) : KResult (AwdsModule × Int) := do
  let m ← m.lockMutex
  let instance? ← m.awdsFindInstanceBySockLocked sk
  let (m, _) ← m.releaseInstance stale instance?
  let m ← m.unlockMutex
  .ok (m, 0)

end AwdsModule

/-! ### Control -/

/-- The fields of an `ioctl` number: direction, type, number and size. -/
structure IocFields where
  dir : Nat
  type : Nat
  nr : Nat
  size : Nat
  deriving DecidableEq, Repr

/-- `_IOC_DIR`, `_IOC_TYPE`, `_IOC_NR` and `_IOC_SIZE`. -/
def IocFields.of (cmd : Nat) : IocFields where
  dir := cmd / 2 ^ 30
  type := cmd / 2 ^ 8 % 2 ^ 8
  nr := cmd % 2 ^ 8
  size := cmd / 2 ^ 16 % 2 ^ 14

/-- `_IOC`. -/
def IocFields.cmd (f : IocFields) : Nat :=
  f.dir * 2 ^ 30 + f.size * 2 ^ 16 + f.type * 2 ^ 8 + f.nr

/-- `_IOC_WRITE` and `_IOC_READ`. -/
abbrev iocWrite : Nat := 1
abbrev iocRead : Nat := 2

/-- `AWDS_IOC_MAGIC`, the character `k`. -/
abbrev awdsIocMagic : Nat := 0x6b

/-- `AWDS_IOC_MAX_NR`. -/
abbrev awdsIocMaxNr : Nat := 2

/-- `AIOCSRTTBL`. -/
abbrev aiocsrttbl : Nat := IocFields.cmd ⟨iocWrite, awdsIocMagic, 0, 8⟩

/-- `AIOCSCFGNR`. -/
abbrev aiocscfgnr : Nat := IocFields.cmd ⟨iocWrite, awdsIocMagic, 1, 8⟩

/-- `AIOCGCFGNR`. -/
abbrev aiocgcfgnr : Nat := IocFields.cmd ⟨iocRead, awdsIocMagic, 2, 8⟩

/-- The memory an `ioctl` works on, from its argument on, and the calls that succeed. `uninit`
is what the memory that `kmalloc` returns holds. -/
structure UserMemory where
  data : Buffer
  accessOk : Bool := true
  copyIntOk : Bool := true
  kmallocOk : Bool := true
  copyTableOk : Bool := true
  uninit : Nat → AwdsRoutingEntry := fun _ => ⟨[], []⟩

/-- The `int` at the beginning of the memory. -/
def UserMemory.int (u : UserMemory) : Int :=
  Int.bmod (ofBigEndian (u.data.read 0 4).reverse) (2 ^ 32)

/-- The size of `struct awds_routing_entry`. -/
abbrev routingEntrySize : Nat := 12

/-- The entry `i` of the table behind the `int`. -/
def UserMemory.entry (u : UserMemory) (i : Nat) : AwdsRoutingEntry where
  dest := u.data.read (4 + i * routingEntrySize) ethAlen
  nexthop := u.data.read (4 + i * routingEntrySize + ethAlen) ethAlen

/-- The length of a routing table that the module takes. -/
def ValidLength (data : Int) : Prop := 0 < data ∧ data % routingEntrySize = 0

instance (data : Int) : Decidable (ValidLength data) :=
  inferInstanceAs (Decidable (_ ∧ _))

namespace AwdsModule

/-- The case `AIOCSRTTBL` of `awds_socket_ioctl`. A length that is not valid and a copy that
fails are not reported. -/
def setRoutingTable (m : AwdsModule) (u : UserMemory) : KResult (AwdsModule × Int) :=
  if !u.copyIntOk then .ok (m, 4)
  else if ¬ ValidLength u.int then .ok (m, 0)
  else do
    let count := u.int.toNat / routingEntrySize
    let m ← m.lockMutex
    -- the old table is freed first, its count stays
    let m := { m with awdsRouting := none }
    let (m, err) :=
      if !u.kmallocOk then (m, -enomem)
      else if !u.copyTableOk then
        ({ m with awdsRouting := some ((List.range count).map u.uninit) }, 0)
      else
        ({ m with
          awdsRouting := some ((List.range count).map u.entry)
          awdsRoutingCount := count }, 0)
    let m ← m.unlockMutex
    .ok (m, err)

/-- `awds_socket_ioctl`. The case of an unknown command unlocks a mutex that no path to it
has locked. -/
def awdsSocketIoctl (m : AwdsModule) (cmd : Nat) (u : UserMemory) : KResult (AwdsModule × Int) :=
  let f := IocFields.of cmd
  if f.type = awdsIocMagic ∧ f.nr > awdsIocMaxNr then .ok (m, -enotty)
  -- a direction without a transfer is not checked
  else if f.dir ≠ 0 ∧ !u.accessOk then .ok (m, -efault)
  else if cmd = aiocscfgnr then
    if !u.copyIntOk then .ok (m, 4)
    else .ok ({ m with configuration := UInt16.ofNat (u.int % 2 ^ 16).toNat }, 0)
  else if cmd = aiocgcfgnr then
    if !u.copyIntOk then .ok (m, 2) else .ok (m, 0)
  else if cmd = aiocsrttbl then m.setRoutingTable u
  else do
    let m ← m.unlockMutex
    .ok (m, -enoioctlcmd)

end AwdsModule

/-! ### Receiving -/

/-- What `awds_socket_peek_skb` returns to `recvmsg`: a packet with its device and length, or
an error. -/
inductive Peeked where
  | packet (dev : DevPtr) (len : Nat)
  | noPacket (err : Int)
  deriving DecidableEq, Repr

/-- The arguments of `recvmsg` and the result of the copy to the process. -/
structure RecvArgs where
  peeked : Peeked
  totalLen : Nat
  truncFlag : Bool := false
  copyErr : Int := 0
  deriving DecidableEq, Repr

namespace AwdsModule

/-- `awds_socket_recvmsg`. -/
def awdsSocketRecvmsg (m : AwdsModule) (sk : SockPtr) (a : RecvArgs) :
    KResult (AwdsModule × Int) := do
  let (m, instance?) ← m.awdsFindInstanceBySock sk
  -- not bound to any address
  if (m.socks sk).ifcount = 0 then .ok (m, -einval)
  else match a.peeked, instance? with
    | .noPacket err, _ => .ok (m, err)
    | .packet _ _, none => .ok (m, 0)
    | .packet dev len, some p => do
      let (m, _) ← m.awdsFindInterface p dev
      if a.copyErr ≠ 0 then .ok (m, a.copyErr)
      else .ok (m, if a.truncFlag then len else min a.totalLen len)

end AwdsModule

/-! ### Runs -/

/-- A call of a socket operation. -/
inductive Op where
  | bind (sk : SockPtr) (addr : SockaddrAwds) (mem : Memory)
  | release (sk : SockPtr) (stale : InterfacePtr → Option InterfacePtr)
  | ioctl (cmd : Nat) (u : UserMemory)
  | recvmsg (sk : SockPtr) (a : RecvArgs)

/-- The effect of a call, with the value it returns. -/
def AwdsModule.exec (net : Net) (m : AwdsModule) : Op → KResult (AwdsModule × Int)
  | .bind sk addr mem => m.awdsSocketBind net mem sk addr
  | .release sk stale => m.awdsSocketRelease stale sk
  | .ioctl cmd u => m.awdsSocketIoctl cmd u
  | .recvmsg sk a => m.awdsSocketRecvmsg sk a

end Awds.Kernel
