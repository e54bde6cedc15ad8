import Awds.Routing.Operations

/-!
# `Awds.Routing.Network`: a flood in a network

A `Network` is a family of stations and the set of everything that was ever transmitted. A
step gives a transmitted packet to a station. A packet stays in `air`, so it can reach any
station any number of times and at any time, or never: every topology, every order of
delivery, and every loss and duplication of packets is a run.

One flood `f`, the pair of a source and a number, is watched. A `Copy` carries the number of
stations that have passed it on, and a station counts how often it has handed `f` to a
handler and transmitted it, and how many other floods it has entered into its history since
the first copy of `f` arrived. These counts are read by no step. The one restriction on a
run is `WithinHistory`: a copy of `f` that comes to `recv_flood` finds fewer than 128 other
floods counted.

Everything else is left open. Packets that are no copies of `f` come from anywhere
(`inject`), stations send floods of their own (`broadcast`), and what a station does beside
its floods, from beacons over timers to shell commands, is any change that keeps the history
(`elsewhere`). A fault ends the station.
-/

set_option autoImplicit false

namespace Awds

open Awds.Lib

/-- The flood a packet belongs to. -/
def BasePacket.flood (p : BasePacket) : FloodHistory.Entry :=
  ⟨SrcPacket.getSrc p, SrcPacket.getSeq p⟩

/-- A transmitted packet, with the number of stations that have passed it on. -/
structure Copy where
  packet : BasePacket
  hops : Nat

/-- The packet is a copy of the flood `f`. -/
def Copy.IsOf (f : FloodHistory.Entry) (c : Copy) : Prop :=
  c.packet.getType = .flood ∧ c.packet.flood = f

/-- A station of the network, `none` once it has ended, with the counts for one flood. -/
structure NetNode where
  routing : Option AwdsRouting
  handed : Nat := 0
  sent : Nat := 0
  others : Option Nat := none

namespace NetNode

/-- Whether a call of `recv_flood` has sent a packet on. -/
def sends : Result (AwdsRouting × Option BasePacket) → Bool
  | .ok (_, some _) => true
  | _ => false

/-- The station behind a call of `recv_flood` for the packet `p` with the result `out`. The
call reaches the handler exactly if `admitFlood` lets the packet go on; a topo packet whose
signature is then refused is counted as well. -/
def record (f : FloodHistory.Entry) (n : NetNode) (r : AwdsRouting) (p : BasePacket)
    (out : Result (AwdsRouting × Option BasePacket)) : NetNode where
  routing := match out with
    | .ok (r', _) => some r'
    | .error _ => none
  handed := if p.flood = f ∧ (r.admitFlood p).2 = true then n.handed + 1 else n.handed
  sent := if p.flood = f ∧ sends out = true then n.sent + 1 else n.sent
  others :=
    if p.flood = f then some (n.others.getD 0)
    else if r.floodHistory.contains p.flood.id p.flood.seq then n.others
    else n.others.map (· + 1)

/-- A copy of `f` arrives while fewer than 128 other floods were counted. -/
def WithinHistory (f : FloodHistory.Entry) (n : NetNode) (p : BasePacket) : Prop :=
  p.flood = f → ∀ m, n.others = some m → m < 128

end NetNode

/-- The stations and what was transmitted. -/
structure Network (ι : Type) where
  nodes : ι → NetNode
  air : Set Copy

namespace Network

section

variable {ι : Type} [DecidableEq ι]

/-- The copies that a call transmits. -/
def transmitted (out : Result (AwdsRouting × Option BasePacket)) (hops : Nat) : Set Copy :=
  {c | ∃ r q, out = .ok (r, some q) ∧ c = ⟨q, hops⟩}

/-- The network behind a call of `recv_flood` at the station `i` with the state `r`. -/
def call (N : Network ι) (f : FloodHistory.Entry) (i : ι) (r : AwdsRouting) (p : BasePacket)
    (out : Result (AwdsRouting × Option BasePacket)) (hops : Nat) : Network ι where
  nodes := Function.update N.nodes i ((N.nodes i).record f r p out)
  air := N.air ∪ transmitted out hops

/-- The network in which the station `i` has another state. -/
def withRouting (N : Network ι) (i : ι) (r : Option AwdsRouting) : Network ι where
  nodes := Function.update N.nodes i { N.nodes i with routing := r }
  air := N.air

/-- The packet that `sendBroadcast` passes to `recv_flood`. -/
def raised (p : BasePacket) : BasePacket := Flood.incTTL (p.setType .flood)

/-- A step of the network. -/
inductive Step (hosts : ι → Host) (f : FloodHistory.Entry) : Network ι → Network ι → Prop
  | deliver (N : Network ι) (i : ι) (clock : Clock) (r : AwdsRouting) (c : Copy)
      (air : c ∈ N.air) (running : (N.nodes i).routing = some r)
      (flood : r.recvPacket (hosts i) c.packet = some .flood)
      (within : (N.nodes i).WithinHistory f c.packet) :
      Step hosts f N
        (N.call f i r c.packet (r.recvFlood (hosts i) clock c.packet) (c.hops + 1))
  | broadcast (N : Network ι) (i : ι) (clock : Clock) (r : AwdsRouting) (p : BasePacket)
      (running : (N.nodes i).routing = some r) (other : p.flood ≠ f) :
      Step hosts f N (N.call f i r (raised p) (r.sendBroadcast (hosts i) clock p) 0)
  | inject (N : Network ι) (c : Copy) (other : ¬c.IsOf f) :
      Step hosts f N { N with air := insert c N.air }
  | elsewhere (N : Network ι) (i : ι) (r r' : AwdsRouting)
      (running : (N.nodes i).routing = some r)
      (history : r'.floodHistory = r.floodHistory) :
      Step hosts f N (N.withRouting i (some r'))
  | stop (N : Network ι) (i : ι) : Step hosts f N (N.withRouting i none)

/-- Nothing of the flood `f` has happened yet. -/
structure Before (f : FloodHistory.Entry) (N : Network ι) : Prop where
  air : ∀ c ∈ N.air, ¬c.IsOf f
  handed : ∀ i, (N.nodes i).handed = 0
  sent : ∀ i, (N.nodes i).sent = 0
  others : ∀ i, (N.nodes i).others = none

/-- The networks of the runs in which the station `o` originates the flood `f` once, with
the packet `p`. -/
inductive Run (hosts : ι → Host) (f : FloodHistory.Entry) (o : ι) (p : BasePacket) :
    Network ι → Prop
  | start (N : Network ι) (clock : Clock) (r : AwdsRouting) (before : N.Before f)
      (running : (N.nodes o).routing = some r) :
      Run hosts f o p (N.call f o r (raised p) (r.sendBroadcast (hosts o) clock p) 0)
  | step (N N' : Network ι) (run : Run hosts f o p N) (step : Step hosts f N N') :
      Run hosts f o p N'

end

end Network

end Awds
