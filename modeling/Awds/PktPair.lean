import Awds.Topology.MetricTables

/-!
# `Awds.PktPair`: the samples of the packet pair metric

The data of a neighbour, `PktPair::s_node_data`, keeps the last `capacity` durations that were
measured, with durations of a second for those that are still missing. `setTime` writes the next
one over the oldest, and `getTime` takes the minimum of all of them.

Without a buffer `setTime` smooths the durations with the weight `alpha`, in floating point. This
smoothing is a parameter. An index outside of the vector is an error.
-/

set_option autoImplicit false

namespace Awds.SNodeData

/-- `setTime`. -/
def setTime (smooth : Duration → Duration → Duration) (d : SNodeData) (t : Duration) :
    Result SNodeData :=
  if d.times.length ≠ 0 then
    if d.position < d.times.length then
      .ok { d with
        times := d.times.set d.position t
        position := (d.position + 1) % d.capacity }
    else .error .outOfBounds
  else .ok { d with time := smooth t d.time }

/-- The loop of `getTime`, `n` turns from the index `i` on. -/
def minLoop (times : List Duration) : Nat → Nat → Duration → Result Duration
  | 0, _, time => .ok time
  | n + 1, i, time => match times[i]? with
    | none => .error .outOfBounds
    | some t => minLoop times n (i + 1) (min time t)

/-- `getTime`: what it returns is also stored. -/
def getTime (d : SNodeData) : Result (SNodeData × Duration) :=
  match d.times with
  | [] => .ok (d, d.time)
  | t :: _ => do
    let time ← minLoop d.times (d.capacity - 1) 1 t
    .ok ({ d with time := time }, time)

/-- `setTime` for one duration after another. -/
def setTimes (smooth : Duration → Duration → Duration) (d : SNodeData) (ts : List Duration) :
    Result SNodeData :=
  ts.foldlM (setTime smooth) d

end Awds.SNodeData
