import Awds.Proofs.Routing.Neighbors

/-!
# `Awds.Proofs.Routing.HopCounts`: the counters of `hop2list`

`hop2list` counts how often a station is listed in the last beacons of the neighbours.
`refreshNeigh` takes the old beacon of a neighbour back and counts the new one. But
`removeOldNeigh` drops a neighbour without taking its beacon back.

* `hop2list_exact`: the counters are right in every run in which no neighbour is dropped
  whose last beacon lists a station.
* `refreshNeigh_returns`: counters that are too high do no harm to the assertion in
  `remove2Hop` until they run around. So the assertions of `refreshNeigh` hold in every run
  in which no counter does so and no beacon of a known neighbour comes while the table is
  full. The check for a full table in front of the assertion is for new neighbours only.
-/

set_option autoImplicit false

namespace Awds.Proofs

open Awds.Lib Awds.AwdsRouting

/-- The stations listed in the last beacon of a neighbour. -/
def lastListed (nd : NodeDescr) : List NodeId :=
  match nd.lastBeacon with
  | none => []
  | some p => Beacon.listed p

/-- How often a station is listed in the last beacons of the neighbours. -/
def occurrences (ns : List NodeDescr) (n : NodeId) : Nat := (ns.flatMap lastListed).count n

section Occurrences

variable {ns : List NodeDescr} {nd nd' : NodeDescr} {n : NodeId} {i : Nat}

/-- A beacon lists at most 254 stations, because its counts are `char`s. -/
theorem length_listed_le (p : BasePacket) : (Beacon.listed p).length ≤ 254 := by
  have hbyte : ∀ b : UInt8, signedByte b ≤ 127 := by
    intro b
    unfold signedByte
    have := b.toNat_lt
    split <;> omega
  have h1 := hbyte (p.buffer Beacon.offsetNumNoMpr)
  have h2 := hbyte (p.buffer Beacon.offsetNumMpr)
  rw [Beacon.listed, List.length_map, List.length_range]
  unfold Beacon.getNumNoMpr Beacon.getNumMpr
  omega

theorem length_lastListed_le (nd : NodeDescr) : (lastListed nd).length ≤ 254 := by
  unfold lastListed
  split
  · exact Nat.zero_le _
  · exact length_listed_le _

/-- Forty neighbours list no station more often than a counter can count. -/
theorem occurrences_lt (h : ns.length ≤ maxNeighbors) : occurrences ns n < 2 ^ 15 := by
  have hlen : (ns.flatMap lastListed).length ≤ ns.length * 254 := by
    clear h
    induction ns with
    | nil => simp
    | cons nd ns ih =>
      have := length_lastListed_le nd
      rw [List.flatMap_cons, List.length_append, List.length_cons]
      omega
  have hcount : occurrences ns n ≤ (ns.flatMap lastListed).length := List.count_le_length
  have h40 : ns.length ≤ 40 := h
  omega

/-- A new neighbour adds its stations. -/
theorem occurrences_insert (ns : List NodeDescr) (nd : NodeDescr) (i : Nat) (n : NodeId) :
    occurrences (ns.take i ++ nd :: ns.drop i) n
      = occurrences ns n + (lastListed nd).count n := by
  have hsplit := congrArg (fun ns => occurrences ns n) (List.take_append_drop i ns)
  simp only [occurrences, List.flatMap_append, List.flatMap_cons, List.count_append] at hsplit ⊢
  omega

/-- A neighbour that is replaced gives its stations back. -/
theorem occurrences_set (hnd : ns[i]? = some nd) (nd' : NodeDescr) (n : NodeId) :
    occurrences (ns.set i nd') n + (lastListed nd).count n
      = occurrences ns n + (lastListed nd').count n := by
  obtain ⟨hi, rfl⟩ := List.getElem?_eq_some_iff.mp hnd
  have hsplit : ns = ns.take i ++ ns[i] :: ns.drop (i + 1) := by
    rw [← List.drop_eq_getElem_cons hi, List.take_append_drop]
  have hold := congrArg (fun ns => occurrences ns n) hsplit
  rw [List.set_eq_take_append_cons_drop, if_pos hi]
  simp only [occurrences, List.flatMap_append, List.flatMap_cons, List.count_append] at hold ⊢
  omega

/-- What is left lists no station more often than before. -/
theorem occurrences_filter_le (ns : List NodeDescr) (keep : NodeDescr → Bool) (n : NodeId) :
    occurrences (ns.filter keep) n ≤ occurrences ns n := by
  induction ns with
  | nil => exact Nat.le_refl _
  | cons nd ns ih =>
    simp only [occurrences, List.filter_cons] at ih ⊢
    split
    · simp only [List.flatMap_cons, List.count_append]
      omega
    · simp only [List.flatMap_cons, List.count_append]
      omega

/-- Neighbours that list no station can be dropped. -/
theorem occurrences_filter (keep : NodeDescr → Bool)
    (h : ∀ nd ∈ ns, keep nd = false → lastListed nd = []) (n : NodeId) :
    occurrences (ns.filter keep) n = occurrences ns n := by
  induction ns with
  | nil => rfl
  | cons nd ns ih =>
    have hrest := ih fun x hx => h x (List.mem_cons_of_mem nd hx)
    simp only [occurrences, List.filter_cons] at hrest ⊢
    split
    · simp only [List.flatMap_cons, List.count_append, hrest]
    · rename_i hkeep
      rw [List.flatMap_cons, h nd List.mem_cons_self (by simpa using hkeep), List.nil_append, hrest]

end Occurrences

/-! ### What a beacon does to the counters -/

section Counters

variable {r r' : AwdsRouting} {t : AbsTime} {p last : BasePacket} {h h' : Hop2List}
  {f : NodeId → Nat}

/-- `remove2Hop` takes the stations of a beacon back if they were counted. -/
theorem remove2Hop_counts (hf : Counts h f) (hle : ∀ n, (Beacon.listed last).count n ≤ f n) :
    ∃ h', Beacon.remove2Hop last h = .ok h' ∧
      Counts h' fun n => f n - (Beacon.listed last).count n := by
  obtain ⟨h', hrun, hcounts⟩ := hf.dropRefs (Beacon.listed last) hle
  refine ⟨h', ?_, hcounts⟩
  unfold Beacon.remove2Hop
  rw [hrun]

/-- The stations in the last beacon of a neighbour. -/
theorem lastListed_of_some {nd : NodeDescr} (h : nd.lastBeacon = some p) :
    lastListed nd = Beacon.listed p := by
  unfold lastListed
  rw [h]

/-- What the counters and the table of a station have to do with each other: every neighbour
has a beacon, and the stations in the beacons are counted at least as often as they are
listed. -/
structure HopsOk (r : AwdsRouting) (f : NodeId → Nat) : Prop where
  table : TableOk r
  beacon : ∀ nd ∈ r.neighbors, ∃ p, nd.lastBeacon = some p
  counts : Counts r.hop2list f
  enough : ∀ n, occurrences r.neighbors n ≤ f n

/-- The stations of one neighbour are counted. -/
theorem HopsOk.entry_le (hok : HopsOk r f) {i : Nat} {nd : NodeDescr}
    (hnd : r.neighbors[i]? = some nd) (hlast : nd.lastBeacon = some last) (n : NodeId) :
    (Beacon.listed last).count n ≤ f n := by
  have hset := occurrences_set hnd { nd with lastBeacon := none } n
  have hlisted := lastListed_of_some hlast
  have hempty : lastListed { nd with lastBeacon := none } = [] := rfl
  have := hok.enough n
  rw [hlisted, hempty, List.count_nil] at hset
  omega

/-- A new neighbour: the stations in its beacon are counted. -/
theorem HopsOk.addNeigh (hok : HopsOk r f) (pos : Nat)
    (hfit : ∀ n, f n + (Beacon.listed p).count n < 2 ^ 16) (htable : TableOk (r.addNeigh p t pos)) :
    ∃ f', HopsOk (r.addNeigh p t pos) f' ∧ ∀ n, f' n + occurrences r.neighbors n
      = f n + occurrences (r.addNeigh p t pos).neighbors n := by
  obtain ⟨nd, hid, hbeacon, -, -, hns⟩ := addNeigh_neighbors r p t pos
  have hhops : (r.addNeigh p t pos).hop2list = Beacon.add2Hop p r.hop2list := by
    rw [addNeigh_eq _ _ _ _ (Prod.mk.eta).symm, armLinkCheck_hop2list]
  have hocc := occurrences_insert r.neighbors nd pos
  rw [← hns, lastListed_of_some hbeacon] at hocc
  refine ⟨fun n => f n + (Beacon.listed p).count n, ⟨htable, ?_, ?_, ?_⟩, ?_⟩
  · intro x hx
    rw [hns] at hx
    rcases mem_insertAt.mp hx with rfl | hold
    · exact ⟨p, hbeacon⟩
    · exact hok.beacon x hold
  · rw [hhops]
    exact hok.counts.addRefs _ hfit
  · intro n
    rw [hocc n]
    exact Nat.add_le_add_right (hok.enough n) _
  · intro n
    simp only [hocc n]
    omega

/-- A known neighbour: the stations in its last beacon are taken back and those in the new
one are counted. -/
theorem HopsOk.update {idx : Nat} {nd : NodeDescr} (hok : HopsOk r f)
    (hfit : ∀ n, f n + (Beacon.listed p).count n < 2 ^ 16) (htable : TableOk r')
    (hup : Updates r r' t p idx nd last) :
    ∃ f', HopsOk r' f' ∧
      ∀ n, f' n + occurrences r.neighbors n = f n + occurrences r'.neighbors n := by
  obtain ⟨hop, hremove, rfl⟩ := hup.result
  -- The lookup in `remove2Hop` succeeds because the last beacon is counted.
  have hentry := hok.entry_le hup.entry hup.beacon
  obtain ⟨hop', hremove', hcounts⟩ := remove2Hop_counts hok.counts hentry
  cases hremove.symm.trans hremove'
  have hbeacon := (noteBeacon_spec nd last p t).2.1
  have hocc := occurrences_set hup.entry (nd.noteBeacon last p t).1
  simp only [lastListed_of_some hup.beacon, lastListed_of_some hbeacon] at hocc
  refine ⟨fun n => f n - (Beacon.listed last).count n + (Beacon.listed p).count n,
    ⟨htable, ?_, ?_, ?_⟩, ?_⟩
  · intro x hx
    rw [armLinkCheck_neighbors] at hx
    rcases List.mem_or_eq_of_mem_set hx with hx | rfl
    · exact hok.beacon x hx
    · exact ⟨p, hbeacon⟩
  · rw [armLinkCheck_hop2list]
    refine hcounts.addRefs _ fun n => ?_
    have := hfit n
    omega
  · intro n
    have := hocc n
    have := hok.enough n
    have := hentry n
    simp only [armLinkCheck_neighbors]
    omega
  · intro n
    have := hocc n
    have := hentry n
    simp only [armLinkCheck_neighbors]
    omega

/-- The effect of `refreshNeigh` on the table and on the counters, if no counter runs
around. The counters that are too high stay so by the same amount. -/
theorem HopsOk.refreshNeigh (hok : HopsOk r f) {isNew : Bool}
    (hfit : ∀ n, f n + (Beacon.listed p).count n < 2 ^ 16)
    (hrun : r.refreshNeigh t p = .ok (r', isNew)) :
    ∃ f', HopsOk r' f' ∧
      ∀ n, f' n + occurrences r.neighbors n = f n + occurrences r'.neighbors n := by
  have htable := hok.table.refreshNeigh hrun
  obtain ⟨-, hcases⟩ := refreshNeigh_cases hrun
  rcases hcases with ⟨-, -, rfl, -⟩ | ⟨-, -, rfl, -⟩ | ⟨-, -, -, nd, last, hup⟩
  · exact ⟨f, hok, fun _ => rfl⟩
  · exact hok.addNeigh _ hfit htable
  · exact hok.update hfit htable hup

/-- `removeOldNeigh` leaves the counters alone. -/
theorem HopsOk.removeOldNeigh (hok : HopsOk r f) (now : AbsTime) :
    HopsOk (r.removeOldNeigh now) f where
  table := hok.table.removeOldNeigh now
  beacon nd hnd := by
    rw [removeOldNeigh_neighbors] at hnd
    exact hok.beacon nd (List.mem_of_mem_filter hnd)
  counts := hok.counts
  enough n := by
    rw [removeOldNeigh_neighbors]
    exact (occurrences_filter_le _ _ n).trans (hok.enough n)

/-- The counters of a station without neighbours. -/
theorem NoNeighbors.hopsOk (h : NoNeighbors r) : HopsOk r fun _ => 0 where
  table := by
    have hrun : NeighRun (fun _ _ => True) r := .start h
    exact hrun.tableOk
  beacon nd hnd := by
    rw [h.1] at hnd
    cases hnd
  counts := by
    rw [h.2]
    exact ⟨fun _ => by decide, fun _ => rfl⟩
  enough n := by
    rw [h.1]
    exact Nat.le_refl 0

end Counters

/-! ### The counters over runs -/

section Exact

variable {r : AwdsRouting}

/-- No neighbour is dropped whose last beacon lists a station. -/
def DropsNoHops (r : AwdsRouting) : NeighOp → Prop
  | .refreshNeigh _ _ => True
  | .removeOldNeigh now => ∀ nd ∈ r.neighbors, nd.isExpired now = true → lastListed nd = []

/-- The counters are right as long as no neighbour is dropped that lists a station. -/
theorem hopsOk_exact (h : NeighRun DropsNoHops r) : HopsOk r (occurrences r.neighbors) := by
  induction h with
  | @start r empty =>
    have hzero : occurrences r.neighbors = fun _ => 0 := by
      funext n
      rw [empty.1]
      rfl
    rw [hzero]
    exact NoNeighbors.hopsOk empty
  | @call r r' op _ hcond hexec ih =>
    cases op with
    | refreshNeigh t p =>
      obtain ⟨⟨r1, isNew⟩, hrefresh, hexec⟩ := bind_eq_ok.mp hexec
      cases hexec
      obtain ⟨f', hok, heq⟩ := ih.refreshNeigh (fun n => by
        have hocc : occurrences r.neighbors n < 2 ^ 15 := occurrences_lt ih.table.length_le
        have hcount : (Beacon.listed p).count n ≤ (Beacon.listed p).length :=
          List.count_le_length
        have := length_listed_le p
        omega) hrefresh
      -- The counters were exact, so they still are.
      have hf : f' = occurrences r'.neighbors := by
        funext n
        have := heq n
        omega
      rwa [← hf]
    | removeOldNeigh now =>
      cases hexec
      have hsame : occurrences (r.removeOldNeigh now).neighbors = occurrences r.neighbors := by
        funext n
        rw [removeOldNeigh_neighbors]
        refine occurrences_filter _ (fun nd hnd hkeep => hcond nd hnd ?_) n
        simpa using hkeep
      rw [hsame]
      exact ih.removeOldNeigh now

/-- In every run in which no neighbour is dropped whose last beacon lists a station, the
counter of a station is the number of times it is listed in the last beacons of the
neighbours, and there is an entry exactly for the stations that are listed. -/
theorem hop2list_exact (h : NeighRun DropsNoHops r) (n : NodeId) :
    (∀ c, r.hop2list[n]? = some c → c.toInt = occurrences r.neighbors n) ∧
      (r.hop2list[n]?.isSome ↔ 0 < occurrences r.neighbors n) := by
  have hok := hopsOk_exact h
  have hentry := hok.counts.entry n
  have hlt : occurrences r.neighbors n < 2 ^ 15 := occurrences_lt hok.table.length_le
  constructor
  · intro c hc
    rw [hentry] at hc
    split at hc
    · cases hc
    · cases hc
      exact Int16.toInt_ofNat_of_lt hlt
  · rw [hentry]
    split
    · simp_all
    · simp only [Option.isSome_some, true_iff]
      omega

/-- The stations 1 and 3 list the station 5 and stay, with a period of a minute. The station 2
lists nobody, has a period of a millisecond, and is dropped. Before the drop the station 3 lists
another station in a second beacon, so its first one is taken back. -/
def countedNeighbors : List NeighOp :=
  [.refreshNeigh 0 (beaconOf 1 1 60000 [5, 6]), .refreshNeigh 0 (beaconOf 3 1 60000 [5, 6]),
    .refreshNeigh 0 (beaconOf 2 1 1 []), .refreshNeigh 1 (beaconOf 3 2 60000 [5])]

/-- Behind the drop of the station 2 the counters of the stations 5 and 6 are still positive, and
they count the two neighbours that are left. -/
theorem hop2list_exact_silent : ∃ r, NeighRun DropsNoHops r ∧
    r.neighbors.map NodeDescr.id = [1, 3] ∧
    (∃ c, r.hop2list[(5 : NodeId)]? = some c ∧ c.toInt = 2) ∧
    (∃ c, r.hop2list[(6 : NodeId)]? = some c ∧ c.toInt = 1) ∧
    r.hop2list[(7 : NodeId)]?.isSome = false := by
  have hstart : NeighRun DropsNoHops (pairRouting false) := .start ⟨rfl, rfl⟩
  obtain ⟨r1, hops, htest⟩ := exists_of_test
    (countedNeighbors.foldlM NeighOp.exec (pairRouting false))
    (fun r => r.neighbors.map NodeDescr.id = [1, 2, 3] ∧
      (r.neighbors.all fun nd => !nd.isExpired 1000000000000 || decide (lastListed nd = [])) ∧
      (r.removeOldNeigh 1000000000000).neighbors.map NodeDescr.id = [1, 3] ∧
      [5, 6, 7].map (occurrences (r.removeOldNeigh 1000000000000).neighbors) = [2, 1, 0])
    (by decide +kernel)
  obtain ⟨-, hsilent, hleft, hocc⟩ := of_decide_eq_true htest
  have hbeacons : ∀ r, ∀ op ∈ countedNeighbors, DropsNoHops r op := by
    intro r op hop
    simp only [countedNeighbors, List.mem_cons, List.not_mem_nil, or_false] at hop
    rcases hop with rfl | rfl | rfl | rfl <;> trivial
  have hdrop : DropsNoHops r1 (.removeOldNeigh 1000000000000) := by
    intro nd hnd hexpired
    have hnd := List.all_eq_true.mp hsilent nd hnd
    rw [hexpired] at hnd
    simpa using hnd
  have hrun := (hstart.of_exec hbeacons hops).call hdrop rfl
  simp only [List.map_cons, List.map_nil, List.cons.injEq, and_true] at hocc
  obtain ⟨hfive, hsix, hseven⟩ := hocc
  -- a positive number of occurrences has an entry, and the entry has this number
  have hcount : ∀ n k, 0 < k → occurrences (r1.removeOldNeigh 1000000000000).neighbors n = k →
      ∃ c, (r1.removeOldNeigh 1000000000000).hop2list[n]? = some c ∧ c.toInt = k := by
    intro n k hk hn
    obtain ⟨hvalue, hentry⟩ := hop2list_exact hrun n
    obtain ⟨c, hc⟩ := Option.isSome_iff_exists.mp (hentry.mpr (hn ▸ hk))
    exact ⟨c, hc, by rw [hvalue c hc, hn]⟩
  refine ⟨_, hrun, hleft, hcount 5 2 (by decide) hfive, hcount 6 1 (by decide) hsix, ?_⟩
  have hnone := (hop2list_exact hrun 7).2
  rw [hseven] at hnone
  rw [← Bool.not_eq_true, hnone]
  decide

/-- The station 1 lists the station 5 and is dropped: the counter of 5 stays. -/
theorem dropped_stays_counted : ¬∀ r, NeighRun (fun _ _ => True) r → ∀ n : NodeId,
    (∀ c, r.hop2list[n]? = some c → c.toInt = occurrences r.neighbors n) ∧
      (r.hop2list[n]?.isSome ↔ 0 < occurrences r.neighbors n) := by
  intro hclaim
  have hstart : NeighRun (fun _ _ => True) (pairRouting false) := .start ⟨rfl, rfl⟩
  obtain ⟨r, hops, htest⟩ := exists_of_test
    ([.refreshNeigh 0 (beaconOf 1 1 1 [5]), .removeOldNeigh 1000000000000].foldlM
      NeighOp.exec (pairRouting false))
    (fun r => r.hop2list[(5 : NodeId)]?.isSome ∧ occurrences r.neighbors 5 = 0)
    (by decide +kernel)
  obtain ⟨hsome, hocc⟩ := of_decide_eq_true htest
  have hpos := (hclaim r (hstart.of_exec (fun _ _ _ => trivial) hops) 5).2.mp hsome
  omega

end Exact

/-! ### The assertions of `refreshNeigh` -/

section Returns

variable {r : AwdsRouting}

/-- A beacon of a known neighbour finds room in the table, and no counter runs around. -/
def FindsRoom (r : AwdsRouting) : NeighOp → Prop
  | .refreshNeigh _ p =>
    (r.neighbors.length = maxNeighbors → ∀ nd ∈ r.neighbors, nd.id ≠ SrcPacket.getSrc p) ∧
      ∀ n, refs r.hop2list n + (Beacon.listed p).count n < 2 ^ 16
  | .removeOldNeigh _ => True

/-- The counters are not too low as long as none runs around. -/
theorem hopsOk_run (h : NeighRun FindsRoom r) : ∃ f, HopsOk r f := by
  induction h with
  | start empty => exact ⟨_, NoNeighbors.hopsOk empty⟩
  | @call r r' op _ hcond hexec ih =>
    obtain ⟨f, hok⟩ := ih
    cases op with
    | refreshNeigh t p =>
      obtain ⟨⟨r1, isNew⟩, hrefresh, hexec⟩ := bind_eq_ok.mp hexec
      cases hexec
      obtain ⟨f', hok', -⟩ := hok.refreshNeigh (fun n => by
        rw [← hok.counts.refs_eq n]
        exact hcond.2 n) hrefresh
      exact ⟨f', hok'⟩
    | removeOldNeigh now =>
      cases hexec
      exact ⟨f, hok.removeOldNeigh now⟩

/-- `refreshNeigh` returns for a beacon that finds room. -/
theorem HopsOk.refreshNeigh_ok {f : NodeId → Nat} (hok : HopsOk r f) (t : AbsTime)
    {p : BasePacket} (htype : p.getType = .beacon)
    (hroom : r.neighbors.length = maxNeighbors → ∀ nd ∈ r.neighbors, nd.id ≠ SrcPacket.getSrc p) :
    ∃ r' isNew, r.refreshNeigh t p = .ok (r', isNew) := by
  have hneg := findNeigh_neg_iff hok.table.ascending (SrcPacket.getSrc p)
  unfold AwdsRouting.refreshNeigh
  simp only
  rw [if_neg (not_not.mpr htype)]
  split
  · exact ⟨_, _, rfl⟩
  rename_i hnotfull
  -- A full table would have refused the beacon.
  have hlt : r.neighbors.length < maxNeighbors := by
    refine lt_of_le_of_ne hok.table.length_le fun hfull => hnotfull ⟨?_, hfull⟩
    exact hneg.mpr (hroom hfull)
  rw [if_neg (not_not.mpr hlt)]
  split
  · rename_i hidx
    obtain ⟨nd, -, -, -, -, hns⟩ := addNeigh_neighbors r p t
      (-r.findNeigh (SrcPacket.getSrc p) - 1).toNat
    rw [if_neg]
    · exact ⟨_, _, rfl⟩
    · rw [hns, not_not, List.length_append, List.length_cons, List.length_take,
        List.length_drop]
      omega
  · rename_i hidx
    obtain ⟨nd, hnd, -⟩ := (findNeigh_ends r (SrcPacket.getSrc p)).holds (not_lt.mp hidx)
    obtain ⟨last, hlast⟩ := hok.beacon nd (List.mem_of_getElem? hnd)
    obtain ⟨hop, hremove, -⟩ := remove2Hop_counts hok.counts (hok.entry_le hnd hlast)
    unfold updateNeigh
    simp only [hnd, hlast, hremove, except_bind_ok]
    exact ⟨_, _, rfl⟩

/-- In every run in which the beacons of known neighbours find room in the table and no
counter runs around, no assertion of `refreshNeigh` fails: a new neighbour is refused if the
table is full, and a beacon of a known neighbour is entered. -/
theorem refreshNeigh_returns (h : NeighRun FindsRoom r) (t : AbsTime) (p : BasePacket)
    (htype : p.getType = .beacon) (hroom : FindsRoom r (.refreshNeigh t p)) :
    ∃ r' isNew, r.refreshNeigh t p = .ok (r', isNew) ∧
      r'.neighbors.length ≤ maxNeighbors ∧
      ((∀ nd ∈ r.neighbors, nd.id ≠ SrcPacket.getSrc p) →
        r.neighbors.length = maxNeighbors → r' = r ∧ isNew = false) ∧
      ((∃ nd ∈ r.neighbors, nd.id = SrcPacket.getSrc p) → isNew = false ∧
        ∃ nd ∈ r'.neighbors, nd.id = SrcPacket.getSrc p ∧ nd.lastBeacon = some p ∧
          nd.lastBeaconTime = t) := by
  obtain ⟨f, hok⟩ := hopsOk_run h
  have hneg := findNeigh_neg_iff hok.table.ascending (SrcPacket.getSrc p)
  obtain ⟨r', isNew, hrun⟩ := hok.refreshNeigh_ok t htype hroom.1
  obtain ⟨-, hcases⟩ := refreshNeigh_cases hrun
  refine ⟨r', isNew, hrun, (hok.table.refreshNeigh hrun).length_le, ?_, ?_⟩
  · -- A table that is full has no room for an unknown source.
    intro hunknown hfull
    have hidx := hneg.mpr hunknown
    rcases hcases with ⟨-, -, hr, hold⟩ | ⟨-, hlt, -⟩ | ⟨hpos, -⟩
    · exact ⟨hr, hold⟩
    · omega
    · omega
  · -- A known source is found again, with this beacon as its last.
    rintro ⟨nd, hnd, hid⟩
    have hpos : ¬r.findNeigh (SrcPacket.getSrc p) < 0 := fun hidx => hneg.mp hidx nd hnd hid
    rcases hcases with ⟨hidx, -⟩ | ⟨hidx, -⟩ | ⟨-, -, hold, nd', last, hup⟩
    · exact absurd hidx hpos
    · exact absurd hidx hpos
    · obtain ⟨hid', hbeacon, htime, -⟩ := noteBeacon_spec nd' last p t
      obtain ⟨hop, -, rfl⟩ := hup.result
      refine ⟨hold, _, ?_, hid'.trans hup.src, hbeacon, htime⟩
      rw [armLinkCheck_neighbors]
      exact List.mem_set (List.getElem?_eq_some_iff.mp hup.entry).1 _

/-- No counter runs around while the counters are right. -/
theorem findsRoom_of_exact (h : NeighRun DropsNoHops r) (hlen : r.neighbors.length < maxNeighbors)
    (t : AbsTime) (p : BasePacket) : FindsRoom r (.refreshNeigh t p) := by
  have hok := hopsOk_exact h
  refine ⟨fun hfull => absurd hfull hlen.ne, fun n => ?_⟩
  have hlt : occurrences r.neighbors n < 2 ^ 15 := occurrences_lt hok.table.length_le
  have hcount : (Beacon.listed p).count n ≤ (Beacon.listed p).length := List.count_le_length
  have := length_listed_le p
  rw [hok.counts.refs_eq n]
  omega

/-- A second beacon of the only neighbour. -/
theorem refreshNeigh_returns_again : ∃ r r' isNew, NeighRun FindsRoom r ∧
    r.refreshNeigh 1 (beaconOf 3 2 1000 [5]) = .ok (r', isNew) ∧
    ∃ nd ∈ r'.neighbors, nd.id = 3 ∧ nd.lastBeaconTime = 1 := by
  have hstart : NeighRun DropsNoHops (pairRouting false) := .start ⟨rfl, rfl⟩
  have hstart' : NeighRun FindsRoom (pairRouting false) := .start ⟨rfl, rfl⟩
  obtain ⟨r, hfirst, htest⟩ := exists_of_test
    (NeighOp.exec (pairRouting false) (.refreshNeigh 0 (beaconOf 3 1 1000 [5])))
    (fun r => r.neighbors.length < maxNeighbors ∧
      r.neighbors.any (fun nd => nd.id = SrcPacket.getSrc (beaconOf 3 2 1000 [5])))
    (by decide +kernel)
  obtain ⟨hlen, hknown⟩ := of_decide_eq_true htest
  have hkeep : DropsNoHops (pairRouting false) (.refreshNeigh 0 (beaconOf 3 1 1000 [5])) :=
    trivial
  have hrun := hstart'.call (findsRoom_of_exact hstart (by decide) _ _) hfirst
  have hroom := findsRoom_of_exact (hstart.call hkeep hfirst) hlen 1 (beaconOf 3 2 1000 [5])
  obtain ⟨r', isNew, hnext, -, -, hentered⟩ :=
    refreshNeigh_returns hrun 1 (beaconOf 3 2 1000 [5]) (by decide +kernel) hroom
  simp only [List.any_eq_true, decide_eq_true_eq] at hknown
  obtain ⟨-, nd, hnd, hid, -, htime⟩ := hentered hknown
  have hsrc : SrcPacket.getSrc (beaconOf 3 2 1000 [5]) = 3 := by decide +kernel
  exact ⟨r, r', isNew, hrun, hnext, nd, hnd, hid.trans hsrc, htime⟩

/-- With forty neighbours the next beacon of a known one fails an assertion. -/
theorem full_table_asserts : ¬∀ r, NeighRun (fun _ _ => True) r → ∀ t p,
    p.getType = .beacon → (∃ nd ∈ r.neighbors, nd.id = SrcPacket.getSrc p) →
    ∃ out, r.refreshNeigh t p = .ok out := by
  intro hclaim
  have hstart : NeighRun (fun _ _ => True) (pairRouting false) := .start ⟨rfl, rfl⟩
  obtain ⟨r, hops, htest⟩ := exists_of_test
    (((fortyStations 1000).map (.refreshNeigh 0)).foldlM NeighOp.exec (pairRouting false))
    (fun r => r.neighbors.any (fun nd => nd.id = SrcPacket.getSrc (beaconOf 1 2 1000 [])) &&
      !(returnsWith (r.refreshNeigh 1 (beaconOf 1 2 1000 [])) fun _ => true))
    (by decide +kernel)
  simp only [Bool.and_eq_true, List.any_eq_true, decide_eq_true_eq] at htest
  obtain ⟨out, hout⟩ := hclaim r (hstart.of_exec (fun _ _ _ => trivial) hops) 1
    (beaconOf 1 2 1000 []) (by decide +kernel)
    htest.1
  rw [hout] at htest
  exact Bool.noConfusion htest.2

end Returns

end Awds.Proofs
