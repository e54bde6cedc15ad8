import Awds.Routing.Beacons
import Awds.Routing.Network

/-!
# `Awds.Routing.Coverage`: a flood that loses no copy

The runs of `Awds.Routing.Network` can lose every packet. Here are the ones in which nothing goes
wrong: no station ends, the stations know each other by beacons that `send_beacon` has built, and
no station that gets the flood for the first time refuses its signature (`Healthy`). A station that
has processed the flood would refuse it, since the number in the signature is known by then. This
does no harm, because the history of floods is asked first.

A `HealthyRun` also logs which copy was given to which station. It is `Complete` for a graph of
links if every transmitted copy of the flood was given to all stations that have a link from the
one that sent it. The source is left out, because `recv_packet` drops its own packets.
-/

set_option autoImplicit false

namespace Awds

open Awds.Lib

/-- The beacon has the header of a beacon that a station has built. -/
def Beacon.FromStation (p : BasePacket) : Prop :=
  ∃ (host : Host) (b b' : BeaconRouting) (q : BasePacket), b.makeBeacon host = .ok (b', q) ∧
    ∀ i, i < Beacon.offsetLNeigh → p.buffer i = q.buffer i

namespace Network

variable {ι : Type}

/-- What a run without failures keeps: every station runs and knows its neighbours by their own
beacons, and a station that has not processed the flood `f` yet accepts the copies of it. Nothing
is asked of the stations that have processed it, the source among them. -/
structure Healthy (hosts : ι → Host) (f : FloodHistory.Entry) (N : Network ι) : Prop where
  running : ∀ i, ∃ r, (N.nodes i).routing = some r
  beacons : ∀ i r, (N.nodes i).routing = some r → ∀ nd ∈ r.neighbors, ∀ p,
    nd.lastBeacon = some p → Beacon.FromStation p
  accepts : ∀ i r, (N.nodes i).routing = some r → r.floodHistory.contains f.id f.seq = false →
    ∀ c ∈ N.air, c.IsOf f → ∀ clock r' q,
      (r.admitFlood c.packet).1.handleFlood (hosts i) clock c.packet ≠ .ok (r', q, false)

variable [DecidableEq ι]

/-- The runs in which the station `o` transmits the flood `f`, a flood that no station holds in
its history yet, and which stay healthy. The set contains the deliveries. -/
inductive HealthyRun (hosts : ι → Host) (f : FloodHistory.Entry) (o : ι) (p : BasePacket) :
    Network ι → Set (ι × Copy) → Prop
  | start (N : Network ι) (clock : Clock) (r r' : AwdsRouting) (q : BasePacket)
      (before : N.Before f)
      (fresh : ∀ i s, (N.nodes i).routing = some s → s.floodHistory.contains f.id f.seq = false)
      (running : (N.nodes o).routing = some r)
      (sent : r.sendBroadcast (hosts o) clock p = .ok (r', some q))
      (healthy : Healthy hosts f
        (N.call f o r (raised p) (r.sendBroadcast (hosts o) clock p) 0)) :
      HealthyRun hosts f o p (N.call f o r (raised p) (r.sendBroadcast (hosts o) clock p) 0) ∅
  | deliver (N : Network ι) (D : Set (ι × Copy)) (i : ι) (clock : Clock) (r : AwdsRouting)
      (c : Copy) (run : HealthyRun hosts f o p N D) (air : c ∈ N.air)
      (running : (N.nodes i).routing = some r)
      (flood : r.recvPacket (hosts i) c.packet = some .flood)
      (within : (N.nodes i).WithinHistory f c.packet)
      (healthy : Healthy hosts f
        (N.call f i r c.packet (r.recvFlood (hosts i) clock c.packet) (c.hops + 1))) :
      HealthyRun hosts f o p
        (N.call f i r c.packet (r.recvFlood (hosts i) clock c.packet) (c.hops + 1))
        (insert (i, c) D)
  | step (N N' : Network ι) (D : Set (ι × Copy)) (run : HealthyRun hosts f o p N D)
      (step : Step hosts f N N') (healthy : Healthy hosts f N') : HealthyRun hosts f o p N' D

omit [DecidableEq ι] in
/-- Every copy of `f` that the station `i` has transmitted was given to every station that has a
link from `i`. -/
def Complete (hosts : ι → Host) (Link : ι → ι → Prop) (f : FloodHistory.Entry) (N : Network ι)
    (D : Set (ι × Copy)) : Prop :=
  ∀ i j c, Link i j → c ∈ N.air → c.IsOf f →
    Flood.getLastHop c.packet = (hosts i).myNodeId → (hosts j).myNodeId ≠ f.id → (j, c) ∈ D

end Network

end Awds
