import Awds.Kernel.Packets
import Awds.Kernel.Sockets
import Awds.Lib.SortedArray
import Awds.Proofs.Topology.Links

/-!
# `Awds.Proofs.Kernel.RoutingTable`: the routing table of the kernel module

`updateTopology` writes the topology into a buffer, the module copies it with `AIOCSRTTBL`,
and `__awds_check_routing` searches the copy with `memcmp`. `Mirrors` says that the table of
the module is the one of the topology: the map in its order, identifier by identifier.

The search rests on two orders that agree. The map is in the order of the 48-bit numbers, and
`memcmp` compares the six bytes of their big-endian form (`memcmp_eq_compare`).
-/

set_option autoImplicit false

namespace Awds.Proofs

open Std (ExtTreeMap)
open Awds.Lib Awds.RTopology Awds.Kernel

/-! ### The buffer -/

/-- A node with its next hop as an entry of the table. -/
def routingEntryOf (e : NodeId × NDescr) : AwdsRoutingEntry where
  dest := e.1.toArray
  nexthop := e.2.nextHop.toArray

section
variable {es : List (NodeId × NDescr)} {c i : Nat} {buf : Buffer}

/-- The bytes in front of the next entry stay. -/
theorem writeTable_below (hi : i < 4 + c * NodeId.size) : writeTable es c buf i = buf i := by
  induction es generalizing c buf with
  | nil => rfl
  | cons e es ih =>
    obtain ⟨id, nd⟩ := e
    rw [writeTable, ih (by simp only [NodeId.size] at hi ⊢; omega),
      Buffer.write_of_lt _ _ (by simp only [NodeId.size] at hi ⊢; omega),
      Buffer.write_of_lt _ _ (by simp only [NodeId.size] at hi ⊢; omega)]

/-- The entries of the table, one behind the other. -/
theorem writeTable_entry (buf : Buffer) (c : Nat) {e : NodeId × NDescr} (he : es[i]? = some e) :
    (writeTable es c buf).read (4 + (c + 2 * i) * NodeId.size) NodeId.size = e.1.toArray ∧
    (writeTable es c buf).read (4 + (c + 2 * i + 1) * NodeId.size) NodeId.size
      = e.2.nextHop.toArray := by
  induction es generalizing c i buf with
  | nil => cases he
  | cons x es ih =>
    obtain ⟨id, nd⟩ := x
    cases i with
    | succ i =>
      have hstep := ih (i := i) ((buf.write (4 + c * NodeId.size) id.toArray).write
          (4 + (c + 1) * NodeId.size) nd.nextHop.toArray) (c + 2) (by simpa using he)
      rw [show c + 2 * (i + 1) = c + 2 + 2 * i by omega]
      exact hstep
    | zero =>
      cases he
      -- the entries behind this one do not touch it
      have hkeep : ∀ off, off + NodeId.size ≤ 4 + (c + 2) * NodeId.size →
          (writeTable ((id, nd) :: es) c buf).read off NodeId.size
            = ((buf.write (4 + c * NodeId.size) id.toArray).write
                (4 + (c + 1) * NodeId.size) nd.nextHop.toArray).read off NodeId.size := by
        intro off hoff
        exact Buffer.read_congr fun j _ hj => writeTable_below (hj.trans_le hoff)
      constructor
      · rw [hkeep _ (by simp only [NodeId.size]; omega),
          Buffer.read_write_disjoint _ _ (.inl (by simp only [NodeId.size]; omega))]
        have hself := Buffer.read_write_self buf (4 + c * NodeId.size) id.toArray
        rw [NodeId.length_toArray] at hself
        exact hself
      · rw [hkeep _ (by simp only [NodeId.size]; omega)]
        have hself := Buffer.read_write_self (buf.write (4 + c * NodeId.size) id.toArray)
          (4 + (c + 1) * NodeId.size) nd.nextHop.toArray
        rw [NodeId.length_toArray] at hself
        exact hself

end

/-- An `int` has four bytes. -/
theorem length_intBytes (x : Int) : (intBytes x).length = 4 := by simp [intBytes]

/-- An `int` is read back modulo the width of the type. -/
theorem ofBigEndian_reverse_intBytes (x : Int) :
    (ofBigEndian (intBytes x).reverse : Int) = x % 2 ^ 32 := by
  have hpos := Int.emod_nonneg x (b := 2 ^ 32) (by decide)
  have hlt := Int.emod_lt_of_pos x (b := 2 ^ 32) (by decide)
  have hnat : (x % 2 ^ 32).toNat < 256 ^ 4 := by omega
  rw [intBytes, List.reverse_reverse, ofBigEndian_toBigEndian_of_lt hnat]
  exact Int.toNat_of_nonneg hpos

section
variable {adj : AdjList} {u : UserMemory}

/-- The buffer of a topology of a size that it is built for. -/
theorem topologyData_eq_ok {buf : Buffer} (h : topologyData adj = .ok buf) :
    adj.size < 2 ^ 30 ∧ buf = writeTable adj.toList 0
      (Buffer.write (fun _ => 0) 0 (intBytes (adj.size * 2 * NodeId.size))) := by
  unfold topologyData at h
  by_cases hsize : 2 ^ 30 ≤ adj.size
  · rw [if_pos hsize] at h
    cases h
  · rw [if_neg hsize] at h
    cases h
    exact ⟨Nat.lt_of_not_le hsize, rfl⟩

/-- The length that the module reads. -/
theorem int_of_topologyData (h : topologyData adj = .ok u.data) :
    u.int = Int.bmod (adj.size * 12) (2 ^ 32) := by
  obtain ⟨-, hdata⟩ := topologyData_eq_ok h
  have hread : u.data.read 0 4 = intBytes (adj.size * 2 * NodeId.size) := by
    have hself := Buffer.read_write_self (fun _ => 0) 0 (intBytes (adj.size * 2 * NodeId.size))
    rw [length_intBytes] at hself
    refine Eq.trans ?_ hself
    rw [hdata]
    exact Buffer.read_congr fun j _ hj => writeTable_below (by omega)
  unfold UserMemory.int
  rw [hread, ofBigEndian_reverse_intBytes]
  have hmul : (adj.size * 2 * NodeId.size : Int) = adj.size * 12 := by
    show (adj.size * 2 * 6 : Int) = adj.size * 12
    omega
  have hwidth : (2 : Int) ^ 32 = ((2 ^ 32 : Nat) : Int) := by norm_num
  rw [hmul, hwidth]
  exact Int.emod_bmod _ _

/-- The table that the module reads. -/
theorem entries_of_topologyData (h : topologyData adj = .ok u.data) :
    (List.range adj.size).map u.entry = adj.toList.map routingEntryOf := by
  obtain ⟨-, hdata⟩ := topologyData_eq_ok h
  have hlen : adj.toList.length = adj.size := ExtTreeMap.length_toList
  refine List.ext_getElem (by simp [hlen]) fun i hi hi' => ?_
  rw [List.getElem_map, List.getElem_map, List.getElem_range]
  have hi2 : i < adj.toList.length := by simpa using hi'
  have hentry := writeTable_entry
    (Buffer.write (fun _ => 0) 0 (intBytes (adj.size * 2 * NodeId.size))) 0
    (List.getElem?_eq_getElem hi2)
  rw [← hdata] at hentry
  obtain ⟨hdest, hnext⟩ := hentry
  have h1 : 4 + (0 + 2 * i) * NodeId.size = 4 + i * routingEntrySize := by
    simp only [routingEntrySize, NodeId.size]
    omega
  have h2 : 4 + (0 + 2 * i + 1) * NodeId.size = 4 + i * routingEntrySize + ethAlen := by
    simp only [routingEntrySize, NodeId.size, ethAlen]
    omega
  rw [h1] at hdest
  rw [h2] at hnext
  rw [UserMemory.entry, routingEntryOf, ← hdest, ← hnext]

/-- The module has the table of the topology `adj`. -/
structure Mirrors (m : AwdsModule) (adj : AdjList) : Prop where
  table : m.awdsRouting = some (adj.toList.map routingEntryOf)
  count : m.awdsRoutingCount = adj.size

/-- `AIOCSRTTBL` installs the table in the memory `u`: the length is one the module takes, no
call fails, and the operation returns 0. -/
structure Installs (m : AwdsModule) (u : UserMemory) (m' : AwdsModule) : Prop where
  returned : m.awdsSocketIoctl aiocsrttbl u = .ok (m', 0)
  accepted : ValidLength u.int
  accessOk : u.accessOk = true
  copyIntOk : u.copyIntOk = true
  kmallocOk : u.kmallocOk = true
  copyTableOk : u.copyTableOk = true

/-- The state behind a successful `AIOCSRTTBL`. -/
theorem Installs.eq {m m' : AwdsModule} (h : Installs m u m') :
    m' = { m with
      awdsRouting := some ((List.range (u.int.toNat / routingEntrySize)).map u.entry)
      awdsRoutingCount := u.int.toNat / routingEntrySize
      mutex := false } := by
  have hrun : m.setRoutingTable u = .ok (m', 0) := by
    have hret := h.returned
    unfold AwdsModule.awdsSocketIoctl at hret
    rw [if_neg (by decide), if_neg (by simp [h.accessOk]), if_neg (by decide),
      if_neg (by decide), if_pos rfl] at hret
    exact hret
  unfold AwdsModule.setRoutingTable at hrun
  rw [if_neg (by simp [h.copyIntOk]), if_neg (not_not.mpr h.accepted)] at hrun
  cases hlock : m.mutex with
  | true =>
    simp only [AwdsModule.lockMutex, hlock] at hrun
    cases hrun
  | false =>
    simp only [AwdsModule.lockMutex, hlock, h.kmallocOk, h.copyTableOk] at hrun
    cases hrun
    rfl

/-- `AIOCSRTTBL` installs every table of a valid length if no call fails. -/
theorem installs_of_valid {m : AwdsModule} (hfree : m.mutex = false)
    (hvalid : ValidLength u.int) (haccess : u.accessOk = true) (hint : u.copyIntOk = true)
    (hmalloc : u.kmallocOk = true) (hcopy : u.copyTableOk = true) : ∃ m', Installs m u m' := by
  let m' := { m with
    awdsRouting := some ((List.range (u.int.toNat / routingEntrySize)).map u.entry)
    awdsRoutingCount := u.int.toNat / routingEntrySize
    mutex := false }
  refine ⟨m', ?_, hvalid, haccess, hint, hmalloc, hcopy⟩
  unfold AwdsModule.awdsSocketIoctl
  rw [if_neg (by decide), if_neg (by simp [haccess]), if_neg (by decide), if_neg (by decide),
    if_pos rfl]
  unfold AwdsModule.setRoutingTable
  rw [if_neg (by simp [hint]), if_neg (not_not.mpr hvalid)]
  simp only [AwdsModule.lockMutex, hfree, hmalloc, hcopy]
  rfl

/-- A length that has wrapped is negative or no multiple of the size of an entry. -/
theorem bmod_of_valid {x : Int} (hpos : 0 ≤ x) (hlt : x < 12 * 2 ^ 30) (hx : x % 12 = 0)
    (hvalid : ValidLength (Int.bmod x (2 ^ 32))) : Int.bmod x (2 ^ 32) = x := by
  have hwidth : (2 : Nat) ^ 32 = 4294967296 := by norm_num
  have hbound : (12 : Int) * 2 ^ 30 = 12884901888 := by norm_num
  rw [hbound] at hlt
  rw [hwidth] at hvalid ⊢
  obtain ⟨h1, h2⟩ := hvalid
  have hdiv := Int.mul_ediv_add_emod x 4294967296
  have hr := Int.emod_lt_of_pos x (b := 4294967296) (by decide)
  have hr0 := Int.emod_nonneg x (b := 4294967296) (by decide)
  rw [Int.bmod_def] at h1 h2 ⊢
  push_cast at h1 h2 ⊢
  -- `q` is how often the length has wrapped
  generalize x / 4294967296 = q at hdiv
  generalize x % 4294967296 = r at *
  have hq0 : 0 ≤ q := by omega
  have hq3 : q < 3 := by omega
  split at h1
  · rw [if_pos ‹_›] at h2 ⊢
    interval_cases q
    · omega
    · omega
    · omega
  · omega

/-- A length that the module takes is the length of the whole table. -/
theorem int_of_accepted (h : topologyData adj = .ok u.data) (hvalid : ValidLength u.int) :
    u.int = adj.size * 12 := by
  obtain ⟨hsize, -⟩ := topologyData_eq_ok h
  rw [int_of_topologyData h] at hvalid ⊢
  exact bmod_of_valid (by omega) (by omega) (by omega) hvalid

/-- The module takes the table of a topology whose length fits into an `int`. -/
theorem valid_of_size (h : topologyData adj = .ok u.data) (hpos : 0 < adj.size)
    (hsize : adj.size * 12 < 2 ^ 31) : ValidLength u.int := by
  have hint : u.int = adj.size * 12 := by
    rw [int_of_topologyData h]
    exact Int.bmod_eq_of_le (by omega) (by omega)
  rw [hint]
  constructor
  · omega
  · show (adj.size * 12 : Int) % 12 = 0
    omega

/-- The installed table is the one of the topology. -/
theorem Installs.mirrors {m m' : AwdsModule} (h : Installs m u m')
    (hdata : topologyData adj = .ok u.data) : Mirrors m' adj := by
  have hcount : u.int.toNat / routingEntrySize = adj.size := by
    rw [int_of_accepted hdata h.accepted]
    simp only [routingEntrySize]
    omega
  rw [h.eq]
  constructor
  · show some _ = some _
    rw [hcount, entries_of_topologyData hdata]
  · exact hcount

end

/-! ### The search -/

/-- The number of a destination. -/
def destKey (e : AwdsRoutingEntry) : Nat := ofBigEndian e.dest

section
variable {m : AwdsModule} {es : List AwdsRoutingEntry} {dest : List UInt8}

/-- An index within the table. -/
theorem routingEntry_eq_ok (htable : m.awdsRouting = some es) {i : Nat} (hi : i < es.length) :
    m.routingEntry i = .ok es[i] := by
  unfold AwdsModule.routingEntry
  rw [htable]
  dsimp only [Option.getD_some]
  rw [List.getElem?_eq_getElem hi]

/-- The search in an ascending table returns, and it finds the destination if it is there.
What is in front of `head` is smaller and what is behind `stop` is greater. -/
theorem searchLoop_run (htable : m.awdsRouting = some es) (hasc : Ascending destKey es)
    (dest : List UInt8) (hlen : ∀ e ∈ es, e.dest.length = dest.length) {n head stop : Nat}
    (hle : head ≤ stop)
    (hstop : stop ≤ es.length) (hfuel : stop - head < n)
    (hbelow : ∀ e ∈ es.take head, destKey e < ofBigEndian dest)
    (habove : ∀ e ∈ es.drop stop, ofBigEndian dest < destKey e) :
    ∃ r, m.searchLoop dest n head stop = .ok r ∧
      (∀ e, r = some e → e ∈ es ∧ memcmp e.dest dest = .eq) ∧
      (r = none → ∀ e ∈ es, destKey e ≠ ofBigEndian dest) := by
  induction n generalizing head stop with
  | zero => omega
  | succ n ih =>
    unfold AwdsModule.searchLoop
    -- The interval is empty: all entries are below or above the destination.
    by_cases hempty : head = stop
    · rw [if_pos hempty]
      refine ⟨none, rfl, (fun e he => by cases he), fun _ e he => ?_⟩
      rw [← List.take_append_drop head es] at he
      rcases List.mem_append.mp he with he | he
      · exact (hbelow e he).ne
      · exact (habove e (hempty ▸ he)).ne'
    · rw [if_neg hempty]
      -- The middle is in the table, so reading it does not fail.
      have hmid : head + (stop - head) / 2 < es.length := by omega
      dsimp only
      rw [routingEntry_eq_ok htable hmid, except_bind_ok]
      have hget := List.getElem?_eq_getElem hmid
      have hmem : es[head + (stop - head) / 2] ∈ es := List.getElem_mem hmid
      cases hcmp : memcmp es[head + (stop - head) / 2].dest dest with
      | eq =>
        refine ⟨_, rfl, fun e he => ?_, fun he => by cases he⟩
        cases he
        exact ⟨hmem, hcmp⟩
      -- The search goes on behind the middle.
      | lt =>
        rw [memcmp_eq_compare (hlen _ hmem), compare_lt_iff_lt] at hcmp
        exact ih (by omega) hstop (by omega) (hasc.take_lt hget hcmp) habove
      -- The search goes on in front of the middle.
      | gt =>
        rw [memcmp_eq_compare (hlen _ hmem), compare_gt_iff_gt] at hcmp
        exact ih (by omega) (by omega) (by omega) hbelow (hasc.lt_drop hget hcmp)

end

/-! ### The lookup -/

/-- The key of an entry is its identifier as a number. -/
theorem destKey_routingEntryOf (e : NodeId × NDescr) : destKey (routingEntryOf e) = e.1.val := by
  show ofBigEndian (toBigEndian NodeId.size e.1.val) = e.1.val
  exact ofBigEndian_toBigEndian_of_lt e.1.isLt

section
variable {m m' : AwdsModule} {adj : AdjList} {u : UserMemory} {skb : SkBuff} {d : NodeId}

/-- The table is in the order of the destinations. -/
theorem ascending_table (adj : AdjList) :
    Ascending destKey (adj.toList.map routingEntryOf) := by
  unfold Ascending
  rw [List.pairwise_map]
  refine (ExtTreeMap.ordered_keys_toList (t := adj)).imp fun {a b} hab => ?_
  rw [destKey_routingEntryOf, destKey_routingEntryOf]
  exact compare_lt_iff_lt.mp hab

/-- With the table of a topology the lookup returns, and it finds exactly the nodes of the
topology, with their next hops. -/
theorem Mirrors.checkRouting (h : Mirrors m adj)
    (hd : skb.data.read awdsDestOffset ethAlen = d.toArray) :
    m.awdsCheckRoutingLocked skb = .ok (adj[d]?.map fun nd => routingEntryOf (d, nd)) := by
  have hlen : (adj.toList.map routingEntryOf).length = adj.size := by
    rw [List.length_map]
    exact ExtTreeMap.length_toList
  unfold AwdsModule.awdsCheckRoutingLocked
  rw [hd, h.count]
  by_cases hzero : adj.size = 0
  · -- An empty table has no entry for the destination.
    rw [if_pos hzero]
    have hnone : adj[d]? = none := by
      cases hnd : adj[d]? with
      | none => rfl
      | some nd =>
        have hmem := ExtTreeMap.mem_toList_iff_getElem?_eq_some.mpr hnd
        have hpos := List.length_pos_of_mem hmem
        rw [ExtTreeMap.length_toList] at hpos
        omega
    rw [hnone]
    rfl
  · rw [if_neg hzero]
    -- The search runs over the whole table, with a pass for each entry and one more.
    obtain ⟨r, hrun, hfound, hmissing⟩ := searchLoop_run h.table (ascending_table adj)
      d.toArray (n := adj.size + 1)
      (by
        intro e he
        obtain ⟨x, -, rfl⟩ := List.mem_map.mp he
        simp [routingEntryOf])
      (Nat.zero_le _) hlen.ge (by omega) (by simp)
      (by rw [List.drop_eq_nil_of_le hlen.le]; simp)
    rw [hrun]
    congr 1
    -- What it has found is compared with the map.
    cases hr : r with
    | none =>
      cases hnd : adj[d]? with
      | none => rfl
      | some nd =>
        have hmem := ExtTreeMap.mem_toList_iff_getElem?_eq_some.mpr hnd
        have hne := hmissing hr _ (List.mem_map_of_mem (f := routingEntryOf) hmem)
        rw [destKey_routingEntryOf] at hne
        exact absurd (ofBigEndian_toBigEndian_of_lt d.isLt).symm hne
    -- The entry has the bytes of the destination, and so its identifier.
    | some e =>
      obtain ⟨hmem, hcmp⟩ := hfound e hr
      obtain ⟨⟨id, nd⟩, hx, rfl⟩ := List.mem_map.mp hmem
      have hid : id = d := by
        rw [memcmp_eq_compare (by simp [routingEntryOf]), compare_eq_iff_eq] at hcmp
        have hkey := destKey_routingEntryOf (id, nd)
        unfold destKey at hkey
        rw [hkey] at hcmp
        exact Fin.ext (hcmp.trans (ofBigEndian_toBigEndian_of_lt d.isLt))
      subst hid
      rw [ExtTreeMap.mem_toList_iff_getElem?_eq_some.mp hx]
      rfl

/-- The topology of station 1, which reaches station 2 through station 3. -/
def relayTable : AdjList :=
  (((∅ : AdjList).insert 1 { distance := 0, nextHop := 1 }).insert 2
    { distance := 2, nextHop := 3 }).insert 3 { distance := 1, nextHop := 3 }

/-- For every topology, behind an ioctl that has installed the buffer of `updateTopology`: the
table has as many entries as its count says, so a lookup that returns has only read those.
Every lookup returns, and for a destination `d` it finds an entry exactly if `d` is a node of
the topology, and then one with the next hop of `d`. -/
theorem checkRouting_installed (hdata : topologyData adj = .ok u.data) (h : Installs m u m') :
    (∃ table, m'.awdsRouting = some table ∧ table.length = m'.awdsRoutingCount) ∧
    ∀ (skb : SkBuff) (d : NodeId), skb.data.read awdsDestOffset ethAlen = d.toArray →
      ∃ r, m'.awdsCheckRoutingLocked skb = .ok r ∧ (r.isSome = true ↔ d ∈ adj) ∧
        ∀ e nd, r = some e → adj[d]? = some nd → e.nexthop = nd.nextHop.toArray := by
  have hm := h.mirrors hdata
  refine ⟨⟨_, hm.table, ?_⟩, fun skb d hd => ⟨_, hm.checkRouting hd, ?_, ?_⟩⟩
  · rw [List.length_map, hm.count]
    exact ExtTreeMap.length_toList
  · rw [Option.isSome_map, mem_iff_getElem?]
    exact Option.isSome_iff_exists
  · intro e nd he hnd
    rw [hnd] at he
    cases he
    rfl

/-- The table of that station in a new module. -/
theorem checkRouting_installed_relay : ∃ (u : UserMemory) (m' : AwdsModule),
    topologyData relayTable = .ok u.data ∧ Installs {} u m' ∧
    ∀ skb : SkBuff, skb.data.read awdsDestOffset ethAlen = NodeId.toArray 2 →
      ∃ r, m'.awdsCheckRoutingLocked skb = .ok r ∧ r.isSome = true := by
  have hsize : relayTable.size = 3 := by decide +kernel
  have hsmall : ¬ 2 ^ 30 ≤ relayTable.size := by
    rw [hsize]
    decide
  obtain ⟨buf, hdata⟩ : ∃ buf, topologyData relayTable = .ok buf := ⟨_, if_neg hsmall⟩
  have hvalid : ValidLength (UserMemory.int { data := buf }) :=
    valid_of_size hdata (by rw [hsize]; decide) (by rw [hsize]; decide)
  obtain ⟨m', h⟩ := installs_of_valid (m := {}) (u := { data := buf }) rfl hvalid rfl rfl rfl rfl
  refine ⟨_, m', hdata, h, fun skb hd => ?_⟩
  obtain ⟨r, hr, hfound, -⟩ := (checkRouting_installed hdata h).2 skb 2 hd
  exact ⟨r, hr, hfound.mpr (by decide +kernel)⟩

end

end Awds.Proofs
