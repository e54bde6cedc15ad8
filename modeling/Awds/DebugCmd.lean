import Awds.Topology.State

/-!
# `Awds.DebugCmd`: the history of the debug outputs

What the daemon writes to its debug stream goes to `OutputRedirector::writeSomeBytes`, which
stores it in a ring of `histSize` bytes. The command `debug` of the shell dumps it.

The members of the class are signed. An access of `memcpy` or `write` outside of the ring, or in
front of the data or behind it, is an error. The streams that watch the outputs are not part of
the model.
-/

set_option autoImplicit false

namespace Awds

open Awds.Lib

/-- The history of an `OutputRedirector`. -/
structure OutputRedirector where
  history : Buffer
  histSize : Int
  bytesInHistory : Int
  histEnd : Int

namespace OutputRedirector

/-- The constructor. The history is not initialised. -/
def new (history : Buffer) : OutputRedirector where
  history := history
  histSize := 64 * 1024
  bytesInHistory := 0
  histEnd := 0

/-- `memcpy(history + off, data, num)`. -/
def copyIn (r : OutputRedirector) (off : Int) (data : List UInt8) (num : Int) :
    Result OutputRedirector :=
  if off < 0 ∨ num < 0 ∨ r.histSize < off + num ∨ (data.length : Int) < num then
    .error .outOfBounds
  else .ok { r with history := r.history.write off.toNat (data.take num.toNat) }

/-- `os->write(history + off, num)`: the bytes that are written. -/
def writeOut (r : OutputRedirector) (off num : Int) : Result (List UInt8) :=
  if off < 0 ∨ num < 0 ∨ r.histSize < off + num then .error .outOfBounds
  else .ok (r.history.read off.toNat num.toNat)

/-- `dumpHistory`. -/
def dumpHistory (r : OutputRedirector) (s : Int) : Result (List UInt8) := do
  let s := if s = -1 then r.histSize else s
  let s := if s > r.bytesInHistory then r.bytesInHistory else s
  let dumpStart := r.histEnd - s
  if dumpStart < 0 then
    let first ← r.writeOut (dumpStart + r.histSize) (-dumpStart)
    let second ← r.writeOut 0 r.histEnd
    .ok (first ++ second)
  else r.writeOut dumpStart s

/-- The end of `storeInHistory`, behind the copy. -/
def stored (r : OutputRedirector) (num : Int) : OutputRedirector :=
  { r with
    bytesInHistory := if r.bytesInHistory + num > r.histSize then r.histSize
      else r.bytesInHistory + num
    histEnd := (r.histEnd + num).tmod r.histSize }

/-- The copy of `storeInHistory`, of data that is not longer than the history. -/
def storeBlock (r : OutputRedirector) (data : List UInt8) (num : Int) :
    Result OutputRedirector := do
  let w2 := r.histEnd + num - r.histSize
  let r ← if w2 ≤ 0 then r.copyIn r.histEnd data num
    else do
      let r ← r.copyIn r.histEnd data (num - w2)
      r.copyIn 0 (data.drop (num - w2).toNat) w2
  .ok (r.stored num)

/-- `storeInHistory`. Only the end of longer data is stored. -/
def storeInHistory (r : OutputRedirector) (data : List UInt8) (num : Int) :
    Result OutputRedirector :=
  if num > r.histSize then r.storeBlock (data.drop (num - r.histSize).toNat) r.histSize
  else r.storeBlock data num

/-- `storeInHistory` for one block after another. -/
def storeAll (r : OutputRedirector) (blocks : List (List UInt8)) : Result OutputRedirector :=
  blocks.foldlM (fun r data => r.storeInHistory data data.length) r

end OutputRedirector

end Awds
