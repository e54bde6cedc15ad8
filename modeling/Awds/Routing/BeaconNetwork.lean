import Awds.Routing.Beacons

/-!
# `Awds.Routing.BeaconNetwork`: beacons in a network

The stations of a network know each other by their beacons. `BeaconNetwork` holds the stations,
everything that was ever transmitted as a beacon, and what each station has heard since it was
started. A step gives a transmitted beacon to a station, so a beacon can be lost, doubled and
delayed, and beacons can overtake each other. Nobody else transmits beacons.

Stations are started, with an empty table of neighbours, and stopped at any time. What a station
does beside its beacons and the link-failure job does not change its table of neighbours
(`elsewhere`).

A transmitted beacon carries what its sender had heard before it, and `heard` is a set of senders
and packets. No step reads either of them.
-/

set_option autoImplicit false

namespace Awds

/-- A beacon that was transmitted, with what its sender had heard before. -/
structure SentBeacon (ι : Type) where
  sender : ι
  packet : BasePacket
  heard : Set (ι × BasePacket)

/-- The stations, `none` if they do not run, with what was transmitted and what each of them has
heard. -/
structure BeaconNetwork (ι : Type) where
  stations : ι → Option BeaconRouting
  air : Set (SentBeacon ι)
  heard : ι → Set (ι × BasePacket)

namespace BeaconNetwork

variable {ι : Type} [DecidableEq ι]

/-- The network in which the station `i` has another state. -/
def withStation (N : BeaconNetwork ι) (i : ι) (b : Option BeaconRouting) : BeaconNetwork ι :=
  { N with stations := Function.update N.stations i b }

/-- The network in which the station `i` has heard `H`. -/
def withHeard (N : BeaconNetwork ι) (i : ι) (H : Set (ι × BasePacket)) : BeaconNetwork ι :=
  { N with heard := Function.update N.heard i H }

/-- The network behind a beacon of the station `i`. -/
def transmit (N : BeaconNetwork ι) (i : ι) (q : BasePacket) : BeaconNetwork ι :=
  { N with air := insert ⟨i, q, N.heard i⟩ N.air }

/-- A step of the network. -/
inductive Step (hosts : ι → Host) : BeaconNetwork ι → BeaconNetwork ι → Prop
  | start (N : BeaconNetwork ι) (i : ι) (b : BeaconRouting) (empty : b.neighbors = []) :
      Step hosts N ((N.withStation i (some b)).withHeard i ∅)
  | send (N : BeaconNetwork ι) (i : ι) (clock : Clock) (n : Nat) (b b' : BeaconRouting)
      (q : BasePacket) (running : N.stations i = some b)
      (sent : b.sendBeacon (hosts i) clock n = .ok (b', q)) :
      Step hosts N ((N.transmit i q).withStation i (some b'))
  | deliver (N : BeaconNetwork ι) (i : ι) (clock : Clock) (b : BeaconRouting)
      (t : SentBeacon ι) (p : BasePacket) (r' : AwdsRouting) (air : t ∈ N.air)
      (arrives : t.packet.Arrives p) (running : N.stations i = some b)
      (beacon : b.toAwdsRouting.recvPacket (hosts i) p = some .beacon)
      (received : b.toAwdsRouting.recvBeacon (hosts i) clock p = .ok r') :
      Step hosts N ((N.withStation i (some { b with toAwdsRouting := r' })).withHeard i
        (insert (t.sender, t.packet) (N.heard i)))
  | check (N : BeaconNetwork ι) (i : ι) (clock : Clock) (b : BeaconRouting) (r' : AwdsRouting)
      (sent : Option BasePacket) (running : N.stations i = some b)
      (checked : b.toAwdsRouting.checkLinkFailure (hosts i) clock = .ok (r', sent)) :
      Step hosts N (N.withStation i (some { b with toAwdsRouting := r' }))
  | elsewhere (N : BeaconNetwork ι) (i : ι) (b b' : BeaconRouting)
      (running : N.stations i = some b) (same : b'.neighbors = b.neighbors) :
      Step hosts N (N.withStation i (some b'))
  | stop (N : BeaconNetwork ι) (i : ι) : Step hosts N (N.withStation i none)

/-- The networks of all runs, in the beginning of which no station runs. -/
inductive Run (hosts : ι → Host) : BeaconNetwork ι → Prop
  | start : Run hosts ⟨fun _ => none, ∅, fun _ => ∅⟩
  | step (N N' : BeaconNetwork ι) (run : Run hosts N) (step : Step hosts N N') : Run hosts N'

end BeaconNetwork

end Awds
