import Awds.Lib.SlidingWindow
import Awds.Proofs.Routing.LinkLoss

/-!
# `Awds.Proofs.Routing.BeaconHistory`: the history of beacons

`beaconHist` is a word of 32 bits in which `refreshNeigh` marks the beacons of a neighbour. The
number of lost beacons goes through an `unsigned char` and is then the count of a shift, of
which the processor uses five bits. `updateActive` compares the whole word with twelve ones.

The beacons of a station are counted here without a bound, and a beacon carries its number
modulo 2^16. `HeardState` is a station with the numbers of the beacons it has heard from each
neighbour since it made the entry, the last one first, and `HeardRun` is a run of beacons, of
calls of `checkLinkFailure` and of other work that leaves the histories alone.

* `beaconHist_exact`: the bits of the history are the beacons that were heard, in every run in
  which no beacon comes 32 or more numbers behind the one before, unless the shift does no harm.
* `activates_in_time_iff`: when a neighbour becomes active with the beacon that completes
  twelve in a row.
-/

set_option autoImplicit false

namespace Awds.Proofs

open Awds.Lib Awds.AwdsRouting

/-! ### The word -/

section Word

variable {hist : UInt32} {last seq : Nat}

/-- The beacon `j` numbers in front of the last one was heard. -/
def ReceivedBehind (ns : List Nat) (j : Nat) : Prop := ∃ n ∈ ns, n + j = ns.headD 0

/-- The bit `31 - j` of the history says whether the beacon `j` numbers in front of the last one
was heard. -/
def HistExact (hist : UInt32) (ns : List Nat) : Prop :=
  ∀ j < 32, hist.toNat.testBit (31 - j) = true ↔ ReceivedBehind ns j

/-- The last twelve beacons were heard. -/
def TwelveReceived (ns : List Nat) : Prop := ∀ j < 12, ReceivedBehind ns j

/-- The history of the code is a sliding window over the sequence numbers. Bit 31 stands for the
last beacon. -/
theorem histExact_iff (ns : List Nat) :
    HistExact hist ns ↔ Window.Records hist.toBitVec (ns.headD 0) ns := by
  unfold HistExact Window.Records ReceivedBehind
  refine forall₂_congr fun j hj => ?_
  rw [Window.getMsbD_eq_testBit hj]
  rfl

/-- The new history is a shift by the low bits of the gap. -/
theorem histAfter_toBitVec (hist : UInt32) (last seq : Nat) :
    (NodeDescr.histAfter hist last seq).toBitVec
      = Window.enter hist.toBitVec ((seq + 2 ^ 16 - last) % 32) := by
  unfold NodeDescr.histAfter Window.enter
  rw [UInt32.toBitVec_or, UInt32.toBitVec_shiftRight, BitVec.ushiftRight_eq', BitVec.toNat_umod]
  have hcount : ((UInt8.ofNat (seq + 2 ^ 16 - last)).toUInt32.toBitVec).toNat
      = (seq + 2 ^ 16 - last) % 256 := by
    simp
    omega
  rw [hcount]
  congr 2
  show (seq + 2 ^ 16 - last) % 256 % 32 = _
  omega

/-- The comparison in `updateActive`: twelve ones and another one. -/
theorem trigger_iff {ns : List Nat} (h : HistExact hist ns) :
    hist > 0xFFF00000 ↔ TwelveReceived ns ∧ ∃ j, 12 ≤ j ∧ j < 32 ∧ ReceivedBehind ns j := by
  have hmask : hist > 0xFFF00000 ↔ Window.topOnes 32 12 < hist.toBitVec.toNat := Iff.rfl
  have hbit : ∀ j < 32, hist.toBitVec.getMsbD j = true ↔ ReceivedBehind ns j := by
    intro j hj
    rw [Window.getMsbD_eq_testBit hj]
    exact h j hj
  rw [hmask, Window.topOnes_lt_iff (by decide)]
  constructor
  · rintro ⟨hones, j, h12, h32, hj⟩
    exact ⟨fun i hi => (hbit i (by omega)).mp (hones i hi), j, h12, h32, (hbit j h32).mp hj⟩
  · rintro ⟨htwelve, j, h12, h32, hj⟩
    exact ⟨fun i hi => (hbit i (by omega)).mpr (htwelve i hi), j, h12, h32, (hbit j h32).mpr hj⟩

/-- While the numbers that were heard lie close together, a beacon is known by the 16 bits of
its number. -/
theorem received_iff_number {last j : Nat} {older : List Nat} (hj : j < 32)
    (hle : ∀ n ∈ older, n ≤ last) (hnear : ∀ n ∈ older, last < n + (2 ^ 16 - 31)) :
    ReceivedBehind (last :: older) j ↔
      ∃ n ∈ last :: older, n % 2 ^ 16 = (last + 2 ^ 16 - j) % 2 ^ 16 := by
  unfold ReceivedBehind
  refine exists_congr fun n => and_congr_right fun hn => ?_
  have hbounds : n ≤ last ∧ last < n + (2 ^ 16 - 31) := by
    rcases List.mem_cons.mp hn with rfl | hn
    · omega
    · exact ⟨hle n hn, hnear n hn⟩
  show n + j = last ↔ _
  omega

end Word

/-! ### What has been heard -/

/-- A station with the numbers of the beacons heard from each neighbour. -/
structure HeardState where
  routing : AwdsRouting
  heard : NodeId → List Nat

/-- How far a beacon is behind the one with the number `last`. -/
def gapTo (last : Nat) (p : BasePacket) : Nat :=
  (SrcPacket.getSeq p + 2 ^ 16 - last % 2 ^ 16) % 2 ^ 16

/-- The numbers heard from the source of a beacon, with the beacon. -/
def HeardState.heardWith (s : HeardState) (p : BasePacket) : List Nat :=
  if s.routing.findNeigh (SrcPacket.getSrc p) < 0 then [SrcPacket.getSeq p]
  else match s.heard (SrcPacket.getSrc p) with
    | [] => [SrcPacket.getSeq p]
    | last :: older => (last + gapTo last p) :: last :: older

/-- The state behind a call of `refreshNeigh`. A beacon that is refused is not heard. -/
def HeardState.hear (s : HeardState) (p : BasePacket) (r' : AwdsRouting) (isNew : Bool) :
    HeardState where
  routing := r'
  heard :=
    if isNew = false ∧ s.routing.findNeigh (SrcPacket.getSrc p) < 0 then s.heard
    else Function.update s.heard (SrcPacket.getSrc p) (s.heardWith p)

/-- Some neighbours may be gone, the others keep the last beacon and the history. -/
structure KeepsEntries (r r' : AwdsRouting) : Prop where
  ids : (r'.neighbors.map NodeDescr.id).Sublist (r.neighbors.map NodeDescr.id)
  entries : ∀ nd' ∈ r'.neighbors, ∃ nd ∈ r.neighbors, nd'.id = nd.id ∧
    nd'.lastBeacon = nd.lastBeacon ∧ nd'.beaconHist = nd.beaconHist

/-- The states that beacons, calls of the job and other work reach. `cond` is a property of a
beacon and the state it comes in. -/
inductive HeardRun (cond : HeardState → BasePacket → Prop) : HeardState → Prop
  | start {r : AwdsRouting} {heard : NodeId → List Nat} (empty : r.neighbors = []) :
      HeardRun cond ⟨r, heard⟩
  | beacon {s : HeardState} {t : AbsTime} {p : BasePacket} {r' : AwdsRouting} {isNew : Bool}
      (run : HeardRun cond s) (ok : cond s p)
      (call : s.routing.refreshNeigh t p = .ok (r', isNew)) : HeardRun cond (s.hear p r' isNew)
  | check {s : HeardState} {host : Host} {clock : Clock} {r' : AwdsRouting}
      {sent : Option BasePacket} (run : HeardRun cond s)
      (call : s.routing.checkLinkFailure host clock = .ok (r', sent)) :
      HeardRun cond ⟨r', s.heard⟩
  | elsewhere {s : HeardState} {r' : AwdsRouting} (run : HeardRun cond s)
      (keeps : KeepsEntries s.routing r') : HeardRun cond ⟨r', s.heard⟩

section Steps

variable {s : HeardState} {p lastp : BasePacket} {r r' : AwdsRouting} {t : AbsTime}
  {isNew : Bool} {nd nd' : NodeDescr} {ns : List Nat} {host : Host} {clock : Clock}

/-- The last number that was heard is the one in the last beacon. -/
structure LastHeard (nd : NodeDescr) (ns : List Nat) (lastp : BasePacket) (last : Nat)
    (older : List Nat) : Prop where
  eq : ns = last :: older
  beacon : nd.lastBeacon = some lastp
  seq : SrcPacket.getSeq lastp = last % 2 ^ 16
  le : ∀ n ∈ older, n ≤ last

/-- The table is ascending, and each entry has the last beacon of its neighbour. -/
structure HeardOk (s : HeardState) : Prop where
  ascending : Ascending NodeDescr.id s.routing.neighbors
  heard : ∀ nd ∈ s.routing.neighbors, ∃ lastp last older,
    LastHeard nd (s.heard nd.id) lastp last older

/-- `checkLinkFailure` keeps the entries. -/
theorem KeepsEntries.check {sent : Option BasePacket}
    (h : r.checkLinkFailure host clock = .ok (r', sent)) : KeepsEntries r r' := by
  have hns := checkLinkFailure_neighbors h
  have hsame := deactivated_keeps clock.lastEventTime
  constructor
  · rw [hns]
    have hids : (r.neighbors.map (deactivated clock.lastEventTime)).map NodeDescr.id
        = r.neighbors.map NodeDescr.id := by
      rw [List.map_map]
      exact List.map_congr_left fun nd _ => (hsame nd).1
    rw [← hids]
    exact List.filter_sublist.map _
  · intro nd' hnd'
    rw [hns] at hnd'
    obtain ⟨nd, hnd, rfl⟩ := List.mem_map.mp (List.mem_of_mem_filter hnd')
    exact ⟨nd, hnd, hsame nd⟩

/-- The entry of the source of a beacon, behind the beacon. All others stay. -/
structure Hears (s : HeardState) (p : BasePacket) (s' : HeardState) (nd' : NodeDescr) : Prop where
  mem : nd' ∈ s'.routing.neighbors
  src : nd'.id = SrcPacket.getSrc p
  others : ∀ x ∈ s'.routing.neighbors, x = nd' ∨
    x ∈ s.routing.neighbors ∧ x.id ≠ SrcPacket.getSrc p
  heard : s'.heard (SrcPacket.getSrc p) = s.heardWith p
  elsewhere : ∀ id, id ≠ SrcPacket.getSrc p → s'.heard id = s.heard id
  ascending : Ascending NodeDescr.id s'.routing.neighbors

/-- A sequence number has two bytes. -/
theorem getSeq_lt (p : BasePacket) : SrcPacket.getSeq p < 2 ^ 16 := by
  have hlt := ofBigEndian_lt (p.buffer.read SrcPacket.offsetSeq 2)
  rwa [Buffer.length_read] at hlt

/-- `noteBeacon` shifts the history by the distance of the sequence numbers. Whether the neighbour
gets active does not matter for that. -/
theorem noteBeacon_hist (nd : NodeDescr) (last p : BasePacket) (t : AbsTime) :
    (nd.noteBeacon last p t).1.beaconHist
      = NodeDescr.histAfter nd.beaconHist (SrcPacket.getSeq last) (SrcPacket.getSeq p) := by
  simp only [NodeDescr.noteBeacon, NodeDescr.updateActive]
  split <;> rfl

/-- The first beacon of a new entry, which goes in at the place of its address. -/
theorem hears_new (hasc : Ascending NodeDescr.id s.routing.neighbors) {i : Nat}
    (hpos : InsertPos NodeDescr.id s.routing.neighbors (SrcPacket.getSrc p) i)
    (hns : r'.neighbors = s.routing.neighbors.take i ++ nd' :: s.routing.neighbors.drop i)
    (hid : nd'.id = SrcPacket.getSrc p) : Hears s p (s.hear p r' true) nd' where
  mem := by simp [HeardState.hear, hns]
  src := hid
  others := by
    intro x hx
    have habsent := InsertPos.not_mem hpos
    change x ∈ r'.neighbors at hx
    rw [hns] at hx
    rcases mem_insertAt.mp hx with rfl | hold
    · exact .inl rfl
    · exact .inr ⟨hold, habsent x hold⟩
  heard := by simp [HeardState.hear]
  elsewhere := by
    intro id hne
    simp [HeardState.hear, hne]
  ascending := by
    show Ascending NodeDescr.id r'.neighbors
    rw [hns]
    exact hasc.insert (hid ▸ hpos)

/-- A beacon of a neighbour, which is entered at its index. -/
theorem hears_known (hasc : Ascending NodeDescr.id s.routing.neighbors) {i : Nat}
    (hpos : ¬s.routing.findNeigh (SrcPacket.getSrc p) < 0)
    (hnd : s.routing.neighbors[i]? = some nd) (hsrc : nd.id = SrcPacket.getSrc p)
    (hns : r'.neighbors = s.routing.neighbors.set i nd') (hid : nd'.id = nd.id) :
    Hears s p (s.hear p r' false) nd' where
  mem := by
    show nd' ∈ r'.neighbors
    rw [hns]
    exact (hasc.mem_set_iff hnd).mpr (.inl rfl)
  src := hid.trans hsrc
  others := by
    intro x hx
    change x ∈ r'.neighbors at hx
    rw [hns] at hx
    rw [← hsrc]
    exact (hasc.mem_set_iff hnd).mp hx
  heard := by simp [HeardState.hear, hpos]
  elsewhere := by
    intro id hne
    simp [HeardState.hear, hpos, hne]
  ascending := by
    show Ascending NodeDescr.id r'.neighbors
    rw [hns]
    exact hasc.set hnd hid

/-- What a beacon does: it is refused and nothing changes, or it is the first one of a new
entry, or it is entered into the one entry of its source. -/
theorem hear_cases (hok : HeardOk s) (hcall : s.routing.refreshNeigh t p = .ok (r', isNew)) :
    (s.hear p r' isNew = s ∧ ∀ nd ∈ s.routing.neighbors, nd.id ≠ SrcPacket.getSrc p) ∨
    ((∀ nd ∈ s.routing.neighbors, nd.id ≠ SrcPacket.getSrc p) ∧
      s.heardWith p = [SrcPacket.getSeq p] ∧
      Hears s p (s.hear p r' isNew)
        ((NodeDescr.init (SrcPacket.getSrc p) p t).noteBeacon p p t).1) ∨
    ∃ nd ∈ s.routing.neighbors, nd.id = SrcPacket.getSrc p ∧ ∃ lastp last older,
      LastHeard nd (s.heard (SrcPacket.getSrc p)) lastp last older ∧
      s.heardWith p = (last + gapTo last p) :: last :: older ∧
      Hears s p (s.hear p r' isNew) (nd.noteBeacon lastp p t).1 := by
  have hasc := hok.ascending
  obtain ⟨-, hcases⟩ := refreshNeigh_cases hcall
  rcases hcases with ⟨hneg, -, rfl, rfl⟩ | ⟨hneg, -, rfl, rfl⟩ | ⟨hpos, -, rfl, nd, lastp, hup⟩
  · -- The table is full, and nothing was changed.
    refine .inl ⟨?_, (findNeigh_neg_iff hasc _).mp hneg⟩
    simp [HeardState.hear, hneg]
  · -- The sender was not known: its history starts with this beacon.
    refine .inr (.inl ⟨(findNeigh_neg_iff hasc _).mp hneg, if_pos hneg, ?_⟩)
    refine hears_new hasc (insertPos_of_neg hasc hneg) ?_ (noteBeacon_spec _ p p t).1
    rw [addNeigh_eq _ _ _ _ (Prod.mk.eta).symm, armLinkCheck_neighbors]
  · -- It was known: the gap to its last beacon goes into the history.
    obtain ⟨hop, -, hr'⟩ := hup.result
    have hmem := List.mem_of_getElem? hup.entry
    have hneg : ¬s.routing.findNeigh (SrcPacket.getSrc p) < 0 := not_lt.mpr hpos
    obtain ⟨q, last, older, hlast⟩ := hok.heard nd hmem
    cases hup.beacon.symm.trans hlast.beacon
    rw [hup.src] at hlast
    refine .inr (.inr ⟨nd, hmem, hup.src, lastp, last, older, hlast, ?_, ?_⟩)
    · simp [HeardState.heardWith, hneg, hlast.eq]
    · refine hears_known hasc hneg hup.entry hup.src ?_ (noteBeacon_spec nd lastp p t).1
      rw [hr', armLinkCheck_neighbors]

/-- The entry behind a beacon has the number of the beacon. -/
theorem lastHeard_noteBeacon {last : Nat} {older : List Nat}
    (h : LastHeard nd ns lastp last older) : LastHeard (nd.noteBeacon lastp p t).1
      ((last + gapTo last p) :: last :: older) p (last + gapTo last p) (last :: older) := by
  refine ⟨rfl, (noteBeacon_spec nd lastp p t).2.1, ?_, ?_⟩
  · have hlt := getSeq_lt p
    unfold gapTo
    omega
  · intro n hn
    rcases List.mem_cons.mp hn with rfl | hn
    · omega
    · have := h.le n hn
      omega

/-- The entries know the last beacons behind every call. -/
theorem HeardOk.hear (h : HeardOk s) (hcall : s.routing.refreshNeigh t p = .ok (r', isNew)) :
    HeardOk (s.hear p r' isNew) := by
  rcases hear_cases h hcall with ⟨hsame, -⟩ | ⟨-, hwith, hhears⟩ |
    ⟨nd, -, -, lastp, last, older, hlast, hwith, hhears⟩
  · rwa [hsame]
  · refine ⟨hhears.ascending, fun x hx => ?_⟩
    rcases hhears.others x hx with rfl | ⟨hx, hne⟩
    · refine ⟨p, SrcPacket.getSeq p, [], ?_, (noteBeacon_spec _ p p t).2.1, ?_, by simp⟩
      · rw [hhears.src, hhears.heard, hwith]
      · exact (Nat.mod_eq_of_lt (getSeq_lt p)).symm
    · rw [hhears.elsewhere _ hne]
      exact h.heard x hx
  · refine ⟨hhears.ascending, fun x hx => ?_⟩
    rcases hhears.others x hx with rfl | ⟨hx, hne⟩
    · rw [hhears.src, hhears.heard, hwith]
      exact ⟨p, _, _, lastHeard_noteBeacon hlast⟩
    · rw [hhears.elsewhere _ hne]
      exact h.heard x hx

/-- What keeps the entries keeps the invariant: nothing was heard in between. -/
theorem HeardOk.keeps (h : HeardOk s) (hkeeps : KeepsEntries s.routing r') :
    HeardOk ⟨r', s.heard⟩ := by
  constructor
  · have hasc := h.ascending
    unfold Ascending at hasc ⊢
    rw [← List.pairwise_map] at hasc ⊢
    exact hasc.sublist hkeeps.ids
  · intro nd' hnd'
    obtain ⟨nd, hnd, hid, hlast, -⟩ := hkeeps.entries nd' hnd'
    obtain ⟨lastp, last, older, hheard⟩ := h.heard nd hnd
    exact ⟨lastp, last, older, by rw [hid]; exact hheard.eq, hlast.trans hheard.beacon,
      hheard.seq, hheard.le⟩

/-- The invariant holds along every run of beacons and other calls. -/
theorem heardOk_run {cond : HeardState → BasePacket → Prop} (h : HeardRun cond s) : HeardOk s := by
  induction h with
  | start empty => exact ⟨by rw [empty]; exact List.Pairwise.nil, by simp [empty]⟩
  | beacon _ _ hcall ih => exact ih.hear hcall
  | check _ hcall ih => exact ih.keeps (.check hcall)
  | elsewhere _ hkeeps ih => exact ih.keeps hkeeps

end Steps

/-! ### The histories are exact -/

section Exact

variable {s : HeardState} {p lastp : BasePacket} {r' : AwdsRouting} {t : AbsTime}
  {isNew : Bool} {nd : NodeDescr} {ns : List Nat} {last : Nat} {older : List Nat}

/-- The histories of all neighbours are exact. -/
def HistoriesExact (s : HeardState) : Prop :=
  ∀ nd ∈ s.routing.neighbors, HistExact nd.beaconHist (s.heard nd.id)

/-- The beacon comes less than 32 numbers behind the last one of its source. It may also come
a multiple of 32 numbers behind it if that one is the only mark in the history. -/
def KeepsHistory (s : HeardState) (p : BasePacket) : Prop :=
  ∀ nd ∈ s.routing.neighbors, nd.id = SrcPacket.getSrc p →
    ∀ last older, s.heard nd.id = last :: older →
      gapTo last p < 32 ∨
        (gapTo last p % 32 = 0 ∧ ∀ n ∈ older, n ≠ last → n + 32 ≤ last)

/-- The first beacon of an entry is its history. -/
theorem histExact_first (id : NodeId) (p : BasePacket) (t : AbsTime) :
    HistExact ((NodeDescr.init id p t).noteBeacon p p t).1.beaconHist [SrcPacket.getSeq p] := by
  have hhist := noteBeacon_hist (NodeDescr.init id p t) p p t
  generalize SrcPacket.getSeq p = seq at hhist ⊢
  have hcount : (seq + 2 ^ 16 - seq) % 32 = 0 := by omega
  have hword := histAfter_toBitVec 0 seq seq
  rw [hcount] at hword
  refine (histExact_iff _).mpr ?_
  rw [hhist, show (NodeDescr.init id p t).beaconHist = 0 from rfl, hword]
  exact Window.records_first seq

/-- A beacon keeps the history of its neighbour exact if and only if it does not come too far
behind the one before. -/
theorem histExact_noteBeacon_iff (hlast : LastHeard nd ns lastp last older)
    (hexact : HistExact nd.beaconHist ns) :
    HistExact (nd.noteBeacon lastp p t).1.beaconHist ((last + gapTo last p) :: last :: older) ↔
      gapTo last p < 32 ∨
        (gapTo last p % 32 = 0 ∧ ∀ n ∈ older, n ≠ last → n + 32 ≤ last) := by
  have hcount : (SrcPacket.getSeq p + 2 ^ 16 - SrcPacket.getSeq lastp) % 32
      = gapTo last p % 32 := by
    rw [hlast.seq]
    unfold gapTo
    omega
  have hmax : ∀ n ∈ last :: older, n ≤ last := by
    simpa using hlast.le
  rw [histExact_iff, hlast.eq] at hexact
  rw [histExact_iff, noteBeacon_hist, histAfter_toBitVec, hcount]
  refine (hexact.advance_mod_iff (by decide) hmax List.mem_cons_self).trans ?_
  simp

/-- From exact histories a beacon leads to exact ones if and only if it does not come too far
behind the one before. -/
theorem historiesExact_hear_iff (hok : HeardOk s) (hexact : HistoriesExact s)
    (hcall : s.routing.refreshNeigh t p = .ok (r', isNew)) :
    HistoriesExact (s.hear p r' isNew) ↔ KeepsHistory s p := by
  rcases hear_cases hok hcall with ⟨hsame, habsent⟩ | ⟨habsent, hwith, hhears⟩ |
    ⟨nd, hnd, hsrc, lastp, last, older, hlast, hwith, hhears⟩
  · rw [hsame]
    exact iff_of_true hexact fun nd hnd hid => absurd hid (habsent nd hnd)
  · refine iff_of_true (fun x hx => ?_) fun nd hnd hid => absurd hid (habsent nd hnd)
    rcases hhears.others x hx with rfl | ⟨hx, hne⟩
    · rw [hhears.src, hhears.heard, hwith]
      exact histExact_first _ p t
    · rw [hhears.elsewhere _ hne]
      exact hexact x hx
  · have hiff := histExact_noteBeacon_iff (p := p) (t := t) hlast (hsrc ▸ hexact nd hnd)
    constructor
    · intro hnew x hx hid last' older' heq
      -- The source has one entry only, and it is the one that got the beacon.
      rw [hid, hlast.eq] at heq
      obtain ⟨rfl, rfl⟩ := List.cons.inj heq
      have hentry := hnew _ hhears.mem
      rw [hhears.src, hhears.heard, hwith] at hentry
      exact hiff.mp hentry
    · intro hkeeps x hx
      rcases hhears.others x hx with rfl | ⟨hx, hne⟩
      · rw [hhears.src, hhears.heard, hwith]
        exact hiff.mpr (hkeeps nd hnd hsrc last older (by rw [hsrc, hlast.eq]))
      · rw [hhears.elsewhere _ hne]
        exact hexact x hx

/-- What keeps the entries keeps the histories, too. -/
theorem HistoriesExact.keeps (h : HistoriesExact s) (hkeeps : KeepsEntries s.routing r') :
    HistoriesExact ⟨r', s.heard⟩ := by
  intro nd' hnd'
  obtain ⟨nd, hnd, hid, -, hhist⟩ := hkeeps.entries nd' hnd'
  rw [hid, hhist]
  exact h nd hnd

/-- The histories are exact in every state of a run that keeps them. -/
theorem historiesExact_run (h : HeardRun KeepsHistory s) : HistoriesExact s := by
  induction h with
  | start empty => simp [HistoriesExact, empty]
  | beacon run hkeeps hcall ih =>
    exact (historiesExact_hear_iff (heardOk_run run) ih hcall).mpr hkeeps
  | check _ hcall ih => exact ih.keeps (.check hcall)
  | elsewhere _ hkeeps ih => exact ih.keeps hkeeps

/-- In every run in which no beacon comes 32 or more numbers behind the last one of its
neighbour (or comes a multiple of 32 behind the only mark of a history): the bit `31 - j` of
each history says whether the beacon `j` numbers in front of the last one has been heard since
the entry was made. While the numbers heard lie within 2^16 - 31 of each other this is the
beacon with the 16-bit number `last - j`. The next beacon keeps the histories exact if and only
if it meets the condition. -/
theorem beaconHist_exact (h : HeardRun KeepsHistory s) :
    HistoriesExact s ∧
    (∀ nd ∈ s.routing.neighbors, ∀ last older, s.heard nd.id = last :: older →
      (∀ n ∈ older, last < n + (2 ^ 16 - 31)) → ∀ j < 32,
        (nd.beaconHist.toNat.testBit (31 - j) = true ↔
          ∃ n ∈ s.heard nd.id, n % 2 ^ 16 = (last + 2 ^ 16 - j) % 2 ^ 16)) ∧
    ∀ t p r' isNew, s.routing.refreshNeigh t p = .ok (r', isNew) →
      (HistoriesExact (s.hear p r' isNew) ↔ KeepsHistory s p) := by
  have hok := heardOk_run h
  have hexact := historiesExact_run h
  refine ⟨hexact, ?_, fun t p r' isNew => historiesExact_hear_iff hok hexact⟩
  intro nd hnd last older heq hnear j hj
  obtain ⟨lastp, last', older', hlast⟩ := hok.heard nd hnd
  rw [hlast.eq] at heq
  obtain ⟨rfl, rfl⟩ := List.cons.inj heq
  rw [hexact nd hnd j hj, hlast.eq]
  exact received_iff_number hj hlast.le hnear

/-- The beacons of a list, all at time 0, as long as the states pass a test. -/
def hearBeacons (test : HeardState → BasePacket → Bool) :
    HeardState → List BasePacket → Result HeardState
  | s, [] => .ok s
  | s, p :: ps =>
    if test s p then
      match s.routing.refreshNeigh 0 p with
      | .error e => .error e
      | .ok (r', isNew) => hearBeacons test (s.hear p r' isNew) ps
    else .error .assertion

/-- They are a run. -/
theorem HeardRun.of_beacons {cond : HeardState → BasePacket → Prop}
    {test : HeardState → BasePacket → Bool} {s s' : HeardState} {ps : List BasePacket}
    (htest : ∀ s p, test s p = true → cond s p) (h : HeardRun cond s)
    (hps : hearBeacons test s ps = .ok s') : HeardRun cond s' := by
  induction ps generalizing s with
  | nil =>
    cases hps
    exact h
  | cons p ps ih =>
    rw [hearBeacons] at hps
    split at hps
    · rename_i hok
      split at hps
      · cases hps
      · exact ih (h.beacon (htest s p hok) ‹_›) hps
    · cases hps

/-- A beacon that comes close behind the last one. -/
def closeBehind (s : HeardState) (p : BasePacket) : Bool :=
  match s.heard (SrcPacket.getSrc p) with
  | [] => true
  | last :: _ => gapTo last p < 32

/-- The test on the last two beacons of a neighbour implies the condition on its history. -/
theorem keepsHistory_of_closeBehind (s : HeardState) (p : BasePacket)
    (h : closeBehind s p = true) : KeepsHistory s p := by
  intro nd _ hid last older heq
  rw [hid] at heq
  simp only [closeBehind, heq, decide_eq_true_eq] at h
  exact .inl h

/-- A station that has heard nothing. -/
def heardNothing : HeardState := ⟨pairRouting false, fun _ => []⟩

/-- The empty station is the start of a run under every condition. -/
theorem HeardRun.nothing (cond : HeardState → BasePacket → Prop) : HeardRun cond heardNothing :=
  .start rfl

/-- Three beacons, the second of which is lost. -/
theorem beaconHist_exact_lost : ∃ s, HeardRun KeepsHistory s ∧ s.heard 3 = [3, 1] ∧
    HistoriesExact s := by
  obtain ⟨s, hps, htest⟩ := exists_of_test
    (hearBeacons closeBehind heardNothing [beaconOf 3 1 1000 [], beaconOf 3 3 1000 []])
    (fun s => s.heard 3 = [3, 1]) (by decide +kernel)
  have hrun := (HeardRun.nothing KeepsHistory).of_beacons
    keepsHistory_of_closeBehind hps
  exact ⟨s, hrun, of_decide_eq_true htest, (beaconHist_exact hrun).1⟩

/-- A beacon comes 32 numbers behind the last one. The bits in front of it stay where they
are, so the history says that the beacon in front of it was heard. -/
theorem beaconHist_not_shifted : ¬∀ s, HeardRun (fun _ _ => True) s → HistoriesExact s := by
  intro hclaim
  obtain ⟨s, hps, htest⟩ := exists_of_test
    (hearBeacons (fun _ _ => true) heardNothing
      [beaconOf 3 1 1000 [], beaconOf 3 2 1000 [], beaconOf 3 34 1000 []])
    (fun s => s.heard 3 = [34, 2, 1] && s.routing.neighbors.any fun nd =>
      decide (nd.id = 3) && nd.beaconHist.toNat.testBit (31 - 1)) (by decide +kernel)
  simp only [Bool.and_eq_true, decide_eq_true_eq, List.any_eq_true] at htest
  obtain ⟨hheard, nd, hnd, hid, hbit⟩ := htest
  have hrun := (HeardRun.nothing fun _ _ => True).of_beacons
    (fun _ _ _ => trivial) hps
  have hexact := hclaim s hrun nd hnd
  rw [hid, hheard] at hexact
  exact absurd ((hexact 1 (by decide)).mp hbit) (by simp [ReceivedBehind])

end Exact

/-! ### Becoming active -/

section Active

variable {s : HeardState} {p lastp : BasePacket} {r' : AwdsRouting} {t : AbsTime}
  {isNew : Bool} {nd : NodeDescr}

/-- The source of a beacon has no active entry. -/
def Inactive (s : HeardState) (p : BasePacket) : Prop :=
  ∀ nd ∈ s.routing.neighbors, nd.id = SrcPacket.getSrc p → nd.active = false

/-- The source of the beacon, if it was not active, becomes active with the beacon if and only
if its last twelve beacons have been heard then. -/
def ActivatesInTime (s : HeardState) (p : BasePacket) (s' : HeardState) : Prop :=
  Inactive s p → ∀ nd' ∈ s'.routing.neighbors, nd'.id = SrcPacket.getSrc p →
    (nd'.active = true ↔ TwelveReceived (s'.heard nd'.id))

/-- If the beacon completes twelve in a row for a neighbour that is not active, one of the
twenty beacons in front of them has been heard as well. -/
def HeardBefore (s : HeardState) (p : BasePacket) : Prop :=
  Inactive s p → TwelveReceived (s.heardWith p) →
    ∃ j, 12 ≤ j ∧ j < 32 ∧ ReceivedBehind (s.heardWith p) j

/-- One beacon is not twelve. -/
theorem not_twelveReceived_singleton (n : Nat) : ¬TwelveReceived [n] := by
  intro h
  obtain ⟨m, hm, hsum⟩ := h 1 (by decide)
  rw [List.mem_singleton.mp hm] at hsum
  exact absurd hsum (by simp)

/-- The entry that a beacon leaves behind, if it was not active. -/
theorem active_noteBeacon_iff {ns : List Nat} (hinactive : nd.active = false)
    (hexact : HistExact (nd.noteBeacon lastp p t).1.beaconHist ns) :
    (nd.noteBeacon lastp p t).1.active = true ↔
      TwelveReceived ns ∧ ∃ j, 12 ≤ j ∧ j < 32 ∧ ReceivedBehind ns j := by
  rw [(noteBeacon_active nd lastp p t).1, ← trigger_iff hexact, noteBeacon_hist]
  simp [hinactive, LastReceived]

/-- In every run whose beacons keep the histories exact, and for the next one that does: an
inactive neighbour becomes active with the beacon behind which its last twelve beacons have all
been heard, exactly if in that case an older one of the last 32 has been heard too. -/
theorem activates_in_time_iff (h : HeardRun KeepsHistory s) (hkeeps : KeepsHistory s p)
    (hcall : s.routing.refreshNeigh t p = .ok (r', isNew)) :
    ActivatesInTime s p (s.hear p r' isNew) ↔ HeardBefore s p := by
  have hok := heardOk_run h
  have hexact := (historiesExact_hear_iff hok (historiesExact_run h) hcall).mpr hkeeps
  unfold ActivatesInTime HeardBefore
  refine forall_congr' fun hinactive => ?_
  -- What is to be shown about the one entry of the source behind the beacon.
  have hentry : ∀ nd', Hears s p (s.hear p r' isNew) nd' →
      (nd'.active = true ↔ TwelveReceived (s.heardWith p) ∧
        ∃ j, 12 ≤ j ∧ j < 32 ∧ ReceivedBehind (s.heardWith p) j) →
      ((∀ x ∈ (s.hear p r' isNew).routing.neighbors, x.id = SrcPacket.getSrc p →
        (x.active = true ↔ TwelveReceived ((s.hear p r' isNew).heard x.id))) ↔
      (TwelveReceived (s.heardWith p) →
        ∃ j, 12 ≤ j ∧ j < 32 ∧ ReceivedBehind (s.heardWith p) j)) := by
    intro nd' hhears hactive
    constructor
    · intro hall htwelve
      have hnd' := hall nd' hhears.mem hhears.src
      rw [hhears.src, hhears.heard] at hnd'
      exact (hactive.mp (hnd'.mpr htwelve)).2
    · intro hbefore x hx hsrc
      rcases hhears.others x hx with rfl | ⟨-, hne⟩
      · rw [hhears.src, hhears.heard, hactive]
        exact ⟨And.left, fun htwelve => ⟨htwelve, hbefore htwelve⟩⟩
      · exact absurd hsrc hne
  rcases hear_cases hok hcall with ⟨hsame, habsent⟩ | ⟨-, -, hhears⟩ |
    ⟨nd, hnd, hsrc, lastp, last, older, -, -, hhears⟩
  · -- A source that is refused has no entry, and one beacon is not twelve.
    have hneg := (findNeigh_neg_iff hok.ascending _).mpr habsent
    rw [hsame]
    refine iff_of_true (fun x hx hid => absurd hid (habsent x hx)) fun htwelve => ?_
    rw [HeardState.heardWith, if_pos hneg] at htwelve
    exact absurd htwelve (not_twelveReceived_singleton _)
  all_goals
    have hhist := hexact _ hhears.mem
    rw [hhears.src, hhears.heard] at hhist
  · exact hentry _ hhears (active_noteBeacon_iff rfl hhist)
  · exact hentry _ hhears (active_noteBeacon_iff (hinactive nd hnd hsrc) hhist)

/-- The thirteenth beacon of a station in a row. -/
theorem activates_in_time_thirteenth : ∃ s r', HeardRun KeepsHistory s ∧
    s.routing.refreshNeigh 0 (beaconOf 3 13 1000 []) = .ok (r', false) ∧
    (ActivatesInTime s (beaconOf 3 13 1000 []) (s.hear (beaconOf 3 13 1000 []) r' false) ↔
      HeardBefore s (beaconOf 3 13 1000 [])) := by
  obtain ⟨s, hps, htest⟩ := exists_of_test
    (hearBeacons closeBehind heardNothing ((thirteenBeacons 3 1000).take 12))
    (fun s => closeBehind s (beaconOf 3 13 1000 []) &&
      noneAdded (s.routing.refreshNeigh 0 (beaconOf 3 13 1000 []))) (by decide +kernel)
  simp only [Bool.and_eq_true] at htest
  have hrun := (HeardRun.nothing KeepsHistory).of_beacons
    keepsHistory_of_closeBehind hps
  obtain ⟨r', hcall⟩ := exists_of_noneAdded htest.2
  exact ⟨s, r', hrun, hcall,
    activates_in_time_iff hrun (keepsHistory_of_closeBehind _ _ htest.1) hcall⟩

/-- Twelve beacons in a row of a new neighbour have been heard, and it is not active. -/
theorem twelve_not_active : ¬∀ s p t r' isNew, HeardRun (fun _ _ => True) s →
    s.routing.refreshNeigh t p = .ok (r', isNew) → ActivatesInTime s p (s.hear p r' isNew) := by
  intro hclaim
  obtain ⟨s, hps, htest⟩ := exists_of_test
    (hearBeacons (fun _ _ => true) heardNothing ((thirteenBeacons 3 1000).take 11))
    (fun s => s.routing.neighbors.all (fun nd => !nd.active) &&
      decide (s.heardWith (beaconOf 3 12 1000 []) = [12, 11, 10, 9, 8, 7, 6, 5, 4, 3, 2, 1]) &&
      decide (0 ≤ s.routing.findNeigh 3) &&
      returnsWith (s.routing.refreshNeigh 0 (beaconOf 3 12 1000 [])) fun x =>
        !x.2 && x.1.neighbors.any fun nd => decide (nd.id = 3) && !nd.active) (by decide +kernel)
  -- After eleven beacons the station is still inactive, and the twelfth does not change that.
  simp only [Bool.and_eq_true, decide_eq_true_eq] at htest
  obtain ⟨⟨⟨hinactive, hwith⟩, hfind⟩, hcall⟩ := htest
  obtain ⟨⟨r', isNew⟩, hrefresh, hcall⟩ := exists_of_returnsWith hcall
  simp only [List.any_eq_true, Bool.and_eq_true, decide_eq_true_eq, Bool.not_eq_true'] at hcall
  obtain ⟨rfl, nd, hnd, hid, hidle⟩ := hcall
  have hsrc : SrcPacket.getSrc (beaconOf 3 12 1000 []) = 3 := by decide
  have hrun := (HeardRun.nothing fun _ _ => True).of_beacons
    (fun _ _ _ => trivial) hps
  have hactive := hclaim s _ 0 r' false hrun hrefresh
    (fun x hx _ => by simpa using List.all_eq_true.mp hinactive x hx) nd hnd (hid.trans hsrc.symm)
  have hheard : (s.hear (beaconOf 3 12 1000 []) r' false).heard nd.id
      = [12, 11, 10, 9, 8, 7, 6, 5, 4, 3, 2, 1] := by
    rw [hid, ← hwith, HeardState.hear, hsrc]
    simp [not_lt.mpr hfind]
  -- Twelve beacons in a row are what the claim asks for.
  rw [hheard, hidle] at hactive
  refine absurd (hactive.mpr fun j hj => ⟨12 - j, ?_, ?_⟩) (by decide)
  · simp
    omega
  · show 12 - j + j = 12
    omega

end Active

end Awds.Proofs
