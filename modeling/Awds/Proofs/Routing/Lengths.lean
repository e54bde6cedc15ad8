import Awds.Proofs.PacketHandlers
import Awds.Routing.LengthTrace

/-!
# `Awds.Proofs.Routing.Lengths`: the lengths computed from the size of a received packet

The traced receive functions compute what the ones without a trace do (`recvBroadcastTraced_result`
and its neighbours). Without a crypto unit no length falls below zero: what a packet is handled as
depends on a byte behind which the header ends, and the bytes behind the packet are zero. With a
crypto unit the 32 bytes of the signature are subtracted without a check.

`lengths_fit_iff` is the main result: the lengths fit exactly if there is no crypto unit or the
packet has the `requiredSize` of the function that it reaches.
-/

set_option autoImplicit false

namespace Awds.Proofs

open Awds.Lib Awds.AwdsRouting

variable {host : Host} {clock : Clock} {r r' : AwdsRouting} {p q : BasePacket}
  {off n : Nat} {sg : List MemoryBlock}

/-! ### The results -/

/-- Reading off the trace changes nothing about the result. -/
theorem sizeMinusTraced_result (p : BasePacket) (n : Nat) :
    (p.sizeMinusTraced n).result = p.sizeMinus n := rfl

/-- A difference of sizes is the one of the natural numbers when the packet is long enough. -/
theorem sizeMinus_of_le (h : n ≤ p.size) : p.sizeMinus n = .ok (p.size - n) :=
  if_neg (Nat.not_lt.mpr h)

/-- In an `int` the difference would be negative. The model reports it as an error. -/
theorem sizeMinus_of_lt (h : p.size < n) : p.sizeMinus n = .error .outOfBounds := if_pos h

/-- The handlers of frames without a trace, in one. -/
def recvFrame (host : Host) (clock : Clock) (r : AwdsRouting) (p : BasePacket) (off : Nat)
    (sg : List MemoryBlock) : Result (AwdsRouting × BasePacket) :=
  match r.cryptoUnit with
  | none => .ok (r.writeFrame clock p off, p)
  | some cu => do
    let len ← p.sizeMinus (cryptoLen + off)
    let (cu, buf, ok) ← cu.decryptDupDetect host.ccm (SrcPacket.getSrc p) p.buffer off len sg
    let r := { r with cryptoUnit := some cu }
    let p := { p with buffer := buf }
    if !ok then .ok (r, p)
    else
      let p := { p with size := p.size - cryptoLen }
      .ok (r.writeFrame clock p off, p)

/-- The traced handler of a frame does what the handler does. The cases are those of the source: no
crypto unit, a length that is too short, a frame that does not decrypt, and one that does. -/
theorem recvFrameTraced_result :
    (r.recvFrameTraced host clock p off sg).result = recvFrame host clock r p off sg := by
  unfold recvFrameTraced recvFrame
  cases r.cryptoUnit with
  | none => rfl
  | some cu =>
    simp only [Traced.result_bind, sizeMinusTraced_result, Traced.result_lift]
    by_cases hle : cryptoLen + off ≤ p.size
    · rw [sizeMinus_of_le hle]
      simp only [bind, Except.bind]
      cases cu.decryptDupDetect host.ccm (SrcPacket.getSrc p) p.buffer off
          (p.size - (cryptoLen + off)) sg with
      | error e => rfl
      | ok x =>
        obtain ⟨cu', buf, ok⟩ := x
        cases ok with
        | false => rfl
        | true =>
          -- the second subtraction is from the same size
          have hsecond : BasePacket.sizeMinus { p with buffer := buf } cryptoLen
              = .ok (p.size - cryptoLen) := sizeMinus_of_le (by show cryptoLen ≤ p.size; omega)
          simp only [Bool.not_true, Bool.false_eq_true, if_false, sizeMinusTraced_result]
          rw [hsecond]
          rfl
    · rw [sizeMinus_of_lt (by omega)]
      rfl

/-- The handlers built on it agree too, with and without a trace: here the one of broadcast frames.
-/
theorem recvBroadcastTraced_result :
    (r.recvBroadcastTraced host clock p).result = r.recvBroadcast host clock p := by
  unfold recvBroadcastTraced recvBroadcast
  dsimp only
  split
  · rfl
  · exact recvFrameTraced_result

/-- The handler of unicast frames is the common one. -/
theorem tapRecvUnicastTraced_result :
    (r.tapRecvUnicastTraced host clock p).result = TapInterface.recvUnicast host clock r p :=
  recvFrameTraced_result

/-- The check of a signature. -/
theorem checkSignatureTraced_result :
    (r.checkSignatureTraced host p).result = r.checkSignature host p := by
  unfold checkSignatureTraced checkSignature
  cases r.cryptoUnit with
  | none => rfl
  | some cu => rw [Traced.result_bind, sizeMinusTraced_result]; rfl

/-- The handler of beacons. -/
theorem recvBeaconTraced_result :
    (r.recvBeaconTraced host clock p).result = r.recvBeacon host clock p := by
  unfold recvBeaconTraced recvBeacon
  cases r.cryptoUnit with
  | none => exact Traced.result_bind _ _
  | some cu =>
    dsimp only
    rw [Traced.result_bind, sizeMinusTraced_result]
    congr 1
    funext len
    split
    · rfl
    · exact Traced.result_bind _ _

/-- The handler of a flood that was admitted. -/
theorem handleFloodTraced_result :
    (r.handleFloodTraced host clock p).result = r.handleFlood host clock p := by
  unfold handleFloodTraced handleFlood
  split
  · unfold handleTopoTraced handleTopo
    rw [Traced.result_bind, checkSignatureTraced_result]
    congr 1
    funext x
    obtain ⟨r₁, p₁, valid⟩ := x
    cases valid with
    | false => rfl
    | true => exact Traced.result_bind _ _
  · cases r.broadcastRegister (Flood.getFloodType p) with
    | none => rfl
    | some handler =>
      cases handler with
      | tap =>
        dsimp only
        rw [Traced.result_bind, recvBroadcastTraced_result]
        rfl
      | topoLock => exact Traced.result_bind _ _

/-- The entry point of floods. -/
theorem recvFloodTraced_result :
    (r.recvFloodTraced host clock p).result = r.recvFlood host clock p := by
  unfold recvFloodTraced recvFlood
  dsimp only
  split
  · rfl
  · rw [Traced.result_bind, handleFloodTraced_result]
    congr 1
    funext x
    obtain ⟨r₁, p₁, valid⟩ := x
    cases valid with
    | false => rfl
    | true => exact Traced.result_bind _ _

/-! ### Lengths that fit -/

/-- No length falls below zero. -/
def Fits {α : Type} (x : Measured α) : Prop := x.All fun e => e.n ≤ e.size

variable {α β : Type}

/-- A step that computes no length fits. -/
theorem fits_pure (a : α) : Fits (pure a : Measured α) := Traced.all_pure

/-- So does one that only brings a result in. -/
theorem fits_lift (y : Result α) : Fits (.lift y : Measured α) := Traced.all_lift y

/-- Behind steps that always fit, only the first one has to. -/
theorem fits_bind {x : Measured α} {f : α → Measured β} (hf : ∀ a, Fits (f a)) :
    Fits (x >>= f) ↔ Fits x :=
  Traced.all_bind.trans (and_iff_left fun a _ => hf a)

/-- Behind a length that does not fit there is nothing. -/
theorem fits_sizeMinus_bind {f : Nat → Measured β} :
    Fits (p.sizeMinusTraced n >>= f) ↔ n ≤ p.size ∧ Fits (f (p.size - n)) := by
  have hhead : Fits (p.sizeMinusTraced n) ↔ n ≤ p.size := by
    simp [Fits, Traced.All, BasePacket.sizeMinusTraced]
  refine Traced.all_bind.trans (and_congr_left' hhead |>.trans (and_congr_right fun hle => ?_))
  rw [sizeMinusTraced_result, sizeMinus_of_le hle]
  exact ⟨fun h => h _ rfl, fun h a ha => Except.ok.inj ha ▸ h⟩

/-- Writing a frame to the tap device takes the offset off the size. -/
theorem fits_writeFrame : Fits (r.writeFrameTraced clock p off) ↔ off ≤ p.size := by
  simp [Fits, Traced.All, writeFrameTraced]

/-- A packet with a frame has to have its header and, with a crypto unit, its signature. -/
theorem fits_recvFrame : Fits (r.recvFrameTraced host clock p off sg) ↔
    (match r.cryptoUnit with | none => 0 | some _ => cryptoLen) + off ≤ p.size := by
  unfold recvFrameTraced
  cases r.cryptoUnit with
  | none =>
    rw [Nat.zero_add]
    exact fits_writeFrame
  | some cu =>
    refine fits_sizeMinus_bind.trans (and_iff_left_of_imp fun hle => ?_)
    refine Traced.all_bind.mpr ⟨fits_lift _, fun x _ => ?_⟩
    obtain ⟨cu', buf, ok⟩ := x
    cases ok with
    | false => exact fits_pure _
    | true =>
      -- what is left behind the signature is not shorter than the header
      refine fits_sizeMinus_bind.mpr ⟨?_, fits_writeFrame.mpr ?_⟩
      · show cryptoLen ≤ p.size
        omega
      · show off ≤ p.size - cryptoLen
        omega

/-- A packet with a signature has to have it if there is a crypto unit. -/
theorem fits_checkSignature :
    Fits (r.checkSignatureTraced host p) ↔ r.cryptoUnit = none ∨ cryptoLen ≤ p.size := by
  unfold checkSignatureTraced
  cases r.cryptoUnit with
  | none => exact iff_of_true (fits_pure _) (.inl rfl)
  | some cu =>
    refine fits_sizeMinus_bind.trans ?_
    simp [fits_pure]

/-- A beacon fits if there is no crypto unit, or if it has room for the signature. -/
theorem fits_recvBeacon :
    Fits (r.recvBeaconTraced host clock p) ↔ r.cryptoUnit = none ∨ cryptoLen ≤ p.size := by
  unfold recvBeaconTraced
  cases r.cryptoUnit with
  | none =>
    refine iff_of_true ((fits_bind fun x => ?_).mpr (fits_lift _)) (.inl rfl)
    exact fits_pure _
  | some cu =>
    refine fits_sizeMinus_bind.trans ((and_iff_left ?_).trans (by simp; rfl))
    dsimp only
    split
    · exact fits_pure _
    · exact (fits_bind fun x => fits_pure _).mpr (fits_lift _)

/-! ### Received packets -/

/-- A packet that was read into a new buffer. -/
structure FromNetwork (p : BasePacket) : Prop where
  nonempty : 1 ≤ p.size
  fits : p.size ≤ BasePacket.maxSize
  zeroed : ∀ i, p.size ≤ i → p.buffer i = 0

/-- A byte that is not zero lies in the packet. -/
theorem FromNetwork.lt_size {i : Nat} (h : FromNetwork p) (hi : p.buffer i ≠ 0) : i < p.size := by
  by_contra hge
  exact hi (h.zeroed i (by omega))

/-- A flood packet that is no topo packet has the whole header. -/
theorem FromNetwork.floodHeader (h : FromNetwork p)
    (htype : Flood.getFloodType p ≠ Flood.floodTypeTopo) : Flood.floodHeaderEnd ≤ p.size := by
  refine h.lt_size (i := Flood.offsetFloodType) fun hzero => htype ?_
  rw [Flood.getFloodType, hzero]
  rfl

/-- A packet for the handler of frames has the whole header: its type lies in the packet, or in
the slot of the trace that the station fills, which ends in front of the end of the packet. -/
theorem FromNetwork.unicastHeader (h : FromNetwork p)
    (htype : UnicastPacket.getUcPacketType (passed host p) = TapInterface.protoNr) :
    UnicastPacket.unicastPacketEnd ≤ p.size := by
  -- A shorter packet has no type byte of its own, and the buffer is zero there.
  by_contra hshort
  have hshort : p.size ≤ 22 := Nat.not_lt.mp hshort
  have hway : (UnicastPacket.decrTTL (p.setType .unicast)).buffer 22 = p.buffer 22 := by
    unfold UnicastPacket.decrTTL
    rw [BasePacket.write_buffer, Buffer.write_of_ge _ _ (Nat.le_refl 22)]
    exact setType_buffer p .unicast (by decide)
  -- Neither the hop count nor the trace is written at the type.
  have hkeep : (passed host p).buffer 22 = p.buffer 22 := by
    rw [← hway]
    unfold passed
    dsimp only
    split
    · by_cases hspace : HasSpace (UnicastPacket.decrTTL (p.setType .unicast))
      · -- the slot ends in front of the type
        have hslot : TraceUcPacket.getTracePointer (UnicastPacket.decrTTL (p.setType .unicast)) + 6
            < p.size := hspace
        exact appendNode_buffer _ _ (.inr (by omega)) (.inl (by decide))
      · rw [appendNode_full _ hspace]
    · rfl
  have hzero : UnicastPacket.getUcPacketType (passed host p) = 0 := by
    show ((passed host p).buffer 22).toNat = 0
    rw [hkeep, h.zeroed 22 hshort]
    rfl
  exact absurd (hzero.symm.trans htype) (by decide)

/-- A flood packet has been admitted by a station that has not sent it. -/
theorem fits_handleFlood (h : FromNetwork p) (hsrc : SrcPacket.getSrc p ≠ host.myNodeId) :
    Fits (r.handleFloodTraced host clock p) ↔ r.cryptoUnit = none ∨
      (if Flood.getFloodType p = Flood.floodTypeTopo then cryptoLen
        else if r.broadcastRegister (Flood.getFloodType p) = some .tap then
          cryptoLen + Flood.floodHeaderEnd
        else 0) ≤ p.size := by
  unfold handleFloodTraced
  by_cases htopo : Flood.getFloodType p = Flood.floodTypeTopo
  · -- The topology is checked over the whole packet less the signature.
    rw [if_pos htopo, if_pos htopo]
    refine (fits_bind fun x => ?_).trans fits_checkSignature
    dsimp only
    split
    · exact fits_pure _
    · exact (fits_bind fun t => fits_pure _).mpr (fits_lift _)
  rw [if_neg htopo, if_neg htopo]
  have hheader := h.floodHeader htopo
  cases hreg : r.broadcastRegister (Flood.getFloodType p) with
  -- Without a handler nothing is measured.
  | none => exact iff_of_true (fits_pure _) (.inr (Nat.zero_le _))
  | some handler =>
    cases handler with
    -- The lock measures nothing.
    | topoLock =>
      refine iff_of_true ?_ (.inr (Nat.zero_le _))
      exact (fits_bind fun x => fits_pure _).mpr (fits_lift _)
    -- The tap interface takes the header off and decrypts the rest.
    | tap =>
      dsimp only
      rw [if_pos rfl, fits_bind fun x => fits_pure _, recvBroadcastTraced, if_neg hsrc,
        fits_recvFrame]
      cases r.cryptoUnit with
      | none => exact iff_of_true (by simpa using hheader) (.inl rfl)
      | some cu => exact (or_iff_right (by simp)).symm

/-- The history of floods is all that the check for duplicates changes. -/
theorem admitFlood_keeps (r : AwdsRouting) (p : BasePacket) :
    (r.admitFlood p).1.cryptoUnit = r.cryptoUnit ∧
      (r.admitFlood p).1.broadcastRegister = r.broadcastRegister := by
  unfold admitFlood
  dsimp only
  split
  · exact ⟨rfl, rfl⟩
  · exact ⟨rfl, rfl⟩

/-- A unicast packet at its destination is as long as it was received. -/
theorem fits_deliver (h : FromNetwork p) {tapLoaded : Bool} :
    Fits (r.deliverTraced host clock tapLoaded (.deliver (passed host p))) ↔
      r.cryptoUnit = none ∨
        (if tapLoaded ∧ UnicastPacket.getUcPacketType (passed host p) = TapInterface.protoNr then
          cryptoLen + UnicastPacket.unicastPacketEnd
        else 0) ≤ p.size := by
  unfold deliverTraced
  dsimp only
  by_cases htap : tapLoaded ∧
      UnicastPacket.getUcPacketType (passed host p) = TapInterface.protoNr
  · have hheader := h.unicastHeader htap.2
    rw [if_pos htap, if_pos htap, fits_bind fun x => fits_pure _, tapRecvUnicastTraced,
      fits_recvFrame, passed_size]
    cases r.cryptoUnit with
    | none => exact iff_of_true (by simpa using hheader) (.inl rfl)
    | some cu => exact (or_iff_right (by simp)).symm
  · rw [if_neg htap, if_neg htap]
    exact iff_of_true (fits_pure _) (.inr (Nat.zero_le _))

/-- The bytes that a packet needs at a station with a crypto unit. They depend on the function
that it comes to. -/
def requiredSize (host : Host) (r : AwdsRouting) (tapLoaded : Bool) (p : BasePacket) : Nat :=
  match r.recvPacket host p with
  | some .beacon => cryptoLen
  | some .flood =>
    if (r.admitFlood p).2 = false then 0
    else if Flood.getFloodType p = Flood.floodTypeTopo then cryptoLen
    else if r.broadcastRegister (Flood.getFloodType p) = some .tap then
      cryptoLen + Flood.floodHeaderEnd
    else 0
  | some .unicast =>
    if ComesTo host p ∧ UnicastPacket.getUcDest (passed host p) = host.myNodeId ∧ tapLoaded ∧
        UnicastPacket.getUcPacketType (passed host p) = TapInterface.protoNr then
      cryptoLen + UnicastPacket.unicastPacketEnd
    else 0
  | _ => 0

/-- Receive a packet from the network at any station: with a crypto unit or without one, with any
firewall and with any handlers. Every length that is computed from the size of the packet is at
least zero if and only if the station has no crypto unit or the packet has the bytes that are
subtracted from its size where it goes. -/
theorem lengths_fit_iff (host : Host) (clock : Clock) (tapLoaded : Bool) (r : AwdsRouting)
    (p : BasePacket) (h : FromNetwork p) :
    Fits (r.receive host clock tapLoaded p) ↔
      r.cryptoUnit = none ∨ requiredSize host r tapLoaded p ≤ p.size := by
  unfold receive requiredSize
  cases hkind : r.recvPacket host p with
  | none => exact iff_of_true (fits_pure _) (.inr (Nat.zero_le _))
  | some kind =>
    obtain ⟨htype, hsrc⟩ := recvPacket_some hkind
    cases kind with
    | forward => exact iff_of_true (fits_pure _) (.inr (Nat.zero_le _))
    -- The signature of a beacon is checked over the packet without it.
    | beacon => exact fits_recvBeacon
    -- An admitted flood goes to its handler; relaying it measures nothing.
    | flood =>
      dsimp only
      have hp : p.setType .flood = p := by rw [← htype, BasePacket.setType_getType]
      obtain ⟨hcu, hreg⟩ := admitFlood_keeps r p
      unfold recvFloodTraced
      dsimp only
      rw [fits_bind fun x => fits_pure _, hp]
      cases hadmit : (r.admitFlood p).2 with
      | false => exact iff_of_true (fits_pure _) (.inr (Nat.zero_le _))
      | true =>
        have hrest (x : AwdsRouting × BasePacket × Bool) : Fits (if !x.2.2 then
            (pure (x.1, none) : Measured (AwdsRouting × Option BasePacket)) else do
              let sent ← .lift (x.1.relayFlood host x.2.1)
              pure (x.1, sent)) := by
          split
          · exact fits_pure _
          · exact (fits_bind fun y => fits_pure _).mpr (fits_lift _)
        rw [if_neg (by simp), fits_bind hrest, fits_handleFlood h hsrc, hcu, hreg,
          if_neg (show ¬true = false from Bool.noConfusion)]
    -- A packet for this station goes to its client.
    | unicast =>
      dsimp only
      refine Traced.all_bind.trans ((and_iff_right (fits_lift _)).trans ?_)
      by_cases hdeliver : ComesTo host p ∧
          UnicastPacket.getUcDest (passed host p) = host.myNodeId
      · have hrun : r.recvUnicast host clock p = .ok (r, .deliver (passed host p)) :=
          recvUnicast_delivers hdeliver.1 hdeliver.2
        rw [Traced.result_lift, hrun]
        simp only [Except.ok.injEq, forall_eq', hdeliver.1, hdeliver.2, true_and]
        exact fits_deliver h
      · -- it is dropped or sent on
        rw [if_neg fun hall => hdeliver ⟨hall.1, hall.2.1⟩]
        refine iff_of_true (fun x hx => ?_) (.inr (Nat.zero_le _))
        obtain ⟨r', action⟩ := x
        cases action with
        | deliver q =>
          obtain ⟨hcomes, hdest, -⟩ := recvUnicast_deliver_iff.mp hx
          exact absurd ⟨hcomes, hdest⟩ hdeliver
        | drop => exact fits_pure _
        | send q => exact fits_pure _

/-- A station with a crypto unit. -/
def keyedRouting : AwdsRouting :=
  { pairRouting false with cryptoUnit := some ⟨List.replicate 16 7, List.replicate 16 9, 0, ∅⟩ }

/-- A beacon of the station 2 with 60 bytes. -/
def longBeacon : BasePacket :=
  { BasePacket.new.write SrcPacket.offsetSrc (NodeId.toArray 2) with size := 60 }

/-- The long beacon is a packet as it comes from the network. -/
theorem fromNetwork_longBeacon : FromNetwork longBeacon where
  nonempty := by decide
  fits := by decide
  zeroed := by
    intro i hi
    have hbehind : SrcPacket.offsetSrc + (NodeId.toArray 2).length ≤ i :=
      Nat.le_trans (by decide) hi
    exact (Buffer.write_of_ge BasePacket.new.buffer (NodeId.toArray 2) hbehind).trans rfl

/-- The station with a crypto unit takes 32 bytes off the length of the beacon, and the beacon has
them: 28 bytes are authenticated. -/
theorem lengths_fit_keyed :
    let run := receive (pairHosts false) ⟨0, 0⟩ true keyedRouting longBeacon
    run.events = [⟨60, 32⟩] ∧ Fits run := by
  refine ⟨by decide +kernel, (lengths_fit_iff _ _ _ _ _ fromNetwork_longBeacon).mpr (.inr ?_)⟩
  decide +kernel

/-- It gets a beacon of one byte: a length is `1 - 32`. -/
theorem length_wraps :
    FromNetwork { BasePacket.new with size := 1 } ∧
      ¬Fits (receive (pairHosts false) ⟨0, 0⟩ true keyedRouting
        { BasePacket.new with size := 1 }) := by
  refine ⟨⟨Nat.le_refl 1, by decide, fun _ _ => rfl⟩, fun hfits => ?_⟩
  have hlen : 32 ≤ 1 := hfits ⟨1, 32⟩ (.head _)
  exact absurd hlen (by decide)

end Awds.Proofs
