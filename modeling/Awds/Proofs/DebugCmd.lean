import Awds.DebugCmd
import Awds.Lib.CircularBuffer
import Awds.Proofs.Topology.Links

/-!
# `Awds.Proofs.DebugCmd`: the last bytes of the debug outputs

`storeInHistory` splits a block where the ring ends, and `dumpHistory` splits what it writes
there, each with its own arithmetic. `Keeps r size l` is the invariant between the calls: the
ring is laid out for a stream with the same last `size` bytes as the stored ones `l`. It is not
the stored stream itself, since of a block that is longer than the ring only the end is laid out,
and the position moves by that part only.

* `Keeps.storeBlock`: the copy of a block that is not longer than the ring.
* `Keeps.storeInHistory`, `Keeps.storeAll`: a call, and then a sequence of calls.
* `Keeps.dumpHistory`: the bytes that are written for a number that is not larger than that of
  the stored ones.
* `dumpHistory_storeAll`: the history behind a sequence of calls.
-/

set_option autoImplicit false

namespace Awds.Proofs

open Awds.Lib OutputRedirector

/-- The history holds the last `size` bytes of `l`. -/
structure Keeps (r : OutputRedirector) (size : Nat) (l : List UInt8) : Prop where
  histSize : r.histSize = size
  pos : 0 < size
  bytes : r.bytesInHistory = (min l.length size : Nat)
  laid : ∃ t, Laid r.history size t ∧ t.rtake size = l.rtake size ∧
    r.histEnd = (t.length % size : Nat)

section

variable {r : OutputRedirector} {size : Nat} {l data : List UInt8}

/-- A copy that fits in the history. The sizes are `int` in the source and not negative here. -/
theorem copyIn_run {off num : Int} {stop n : Nat} (hoff : off = stop) (hnum : num = n)
    (hsize : r.histSize = size) (hfit : stop + n ≤ size) (hdata : n ≤ data.length) :
    r.copyIn off data num = .ok { r with history := r.history.write stop (data.take n) } := by
  subst hoff hnum
  unfold copyIn
  rw [if_neg (by omega), Int.toNat_natCast, Int.toNat_natCast]

/-- A write of bytes of the history. -/
theorem writeOut_run {off num : Int} {start n : Nat} (hoff : off = start) (hnum : num = n)
    (hsize : r.histSize = size) (hfit : start + n ≤ size) :
    r.writeOut off num = .ok (r.history.read start n) := by
  subst hoff hnum
  unfold writeOut
  rw [if_neg (by omega), Int.toNat_natCast, Int.toNat_natCast]

/-- The number of stored bytes and the position behind the copy of a block. -/
theorem stored_eq {stop num : Nat} (hsize : r.histSize = size) (hend : r.histEnd = stop)
    (hbytes : r.bytesInHistory = (min l.length size : Nat)) (hdata : data.length = num) :
    r.stored num = { r with
      bytesInHistory := (min (l ++ data).length size : Nat)
      histEnd := ((stop + num) % size : Nat) } := by
  unfold OutputRedirector.stored
  rw [hsize, hend, hbytes, List.length_append, hdata]
  have hmod : ((stop : Int) + num).tmod size = ((stop + num) % size : Nat) := by
    rw [← Int.natCast_add]
    exact (Int.ofNat_tmod _ _).symm
  rw [hmod]
  congr 1
  split <;> omega

/-- The copy lays the block out behind the stream. -/
theorem Keeps.storeBlock (h : Keeps r size l) (hdata : data.length ≤ size) :
    ∃ r', r.storeBlock data data.length = .ok r' ∧ Keeps r' size (l ++ data) := by
  obtain ⟨t, hlaid, hlast, hend⟩ := h.laid
  have hstop := Nat.mod_lt t.length h.pos
  -- what the two ways to copy have in common
  have hkeeps : ∀ history, Laid history size (t ++ data) →
      Keeps (({ r with history := history } : OutputRedirector).stored data.length) size
        (l ++ data) := by
    intro history hnew
    rw [stored_eq (r := { r with history := history }) h.histSize hend h.bytes rfl]
    refine ⟨h.histSize, h.pos, rfl, t ++ data, hnew, rtake_append_congr hlast data, ?_⟩
    show (((t.length % size + data.length) % size : Nat) : Int) = ((t ++ data).length % size : Nat)
    rw [List.length_append, Nat.mod_add_mod]
  unfold OutputRedirector.storeBlock
  dsimp only
  by_cases hfit : t.length % size + data.length ≤ size
  · refine ⟨_, ?_, hkeeps _ (hlaid.write_front hfit)⟩
    rw [if_pos (by rw [h.histSize, hend]; omega),
      copyIn_run hend rfl h.histSize hfit le_rfl, List.take_length]
    rfl
  · refine ⟨_, ?_, hkeeps _ (hlaid.write_wrap hdata (by omega))⟩
    -- the part that fits, and the part that does not
    have hfirst : (data.length : Int) - (r.histEnd + data.length - r.histSize) =
        (size - t.length % size : Nat) := by
      rw [h.histSize, hend]
      omega
    have hsecond : r.histEnd + data.length - r.histSize =
        (data.length - (size - t.length % size) : Nat) := by
      rw [h.histSize, hend]
      omega
    have hrest : (data.drop (size - t.length % size)).length =
        data.length - (size - t.length % size) := List.length_drop
    rw [if_neg (by rw [h.histSize, hend]; omega),
      copyIn_run hend hfirst h.histSize (by omega) (by omega), except_bind_ok, hfirst,
      Int.toNat_natCast, copyIn_run Nat.cast_zero.symm hsecond (by exact h.histSize) (by omega)
      hrest.ge, List.take_of_length_le hrest.le]
    rfl

/-- A call with data of any length. -/
theorem Keeps.storeInHistory (h : Keeps r size l) (data : List UInt8) :
    ∃ r', r.storeInHistory data data.length = .ok r' ∧ Keeps r' size (l ++ data) := by
  unfold OutputRedirector.storeInHistory
  by_cases hlong : size < data.length
  · rw [if_pos (by rw [h.histSize]; omega), h.histSize, show ((data.length : Int) - size).toNat =
      data.length - size by omega]
    have hlen : (data.drop (data.length - size)).length = size := by
      rw [List.length_drop]
      omega
    obtain ⟨r', hrun, hkeeps⟩ := h.storeBlock hlen.le
    rw [hlen] at hrun
    refine ⟨r', hrun, hkeeps.histSize, h.pos, ?_, ?_⟩
    · rw [hkeeps.bytes, List.length_append, List.length_append, hlen]
      omega
    · -- the end of the data is all that the ring can hold
      obtain ⟨t, hlaid, hlast, hend⟩ := hkeeps.laid
      refine ⟨t, hlaid, hlast.trans ?_, hend⟩
      rw [rtake_append_of_le hlen.ge, rtake_append_of_le hlong.le, List.rtake, hlen,
        Nat.sub_self, List.drop_zero, List.rtake]
  · rw [if_neg (by rw [h.histSize]; omega)]
    exact h.storeBlock (by omega)

/-- A sequence of calls. -/
theorem Keeps.storeAll (h : Keeps r size l) (blocks : List (List UInt8)) :
    ∃ r', r.storeAll blocks = .ok r' ∧ Keeps r' size (l ++ blocks.flatten) := by
  induction blocks generalizing r l with
  | nil => exact ⟨r, rfl, by simpa using h⟩
  | cons data blocks ih =>
    obtain ⟨r1, hcall, hkeeps⟩ := h.storeInHistory data
    obtain ⟨r', hrun, hkeeps'⟩ := ih hkeeps
    refine ⟨r', ?_, by simpa using hkeeps'⟩
    unfold OutputRedirector.storeAll at hrun ⊢
    rw [List.foldlM_cons, hcall]
    exact hrun

/-- The bytes that `dumpHistory` writes, for a number that is already clipped. -/
theorem Keeps.dumpHistory (h : Keeps r size l) {s : Int} {n : Nat}
    (hs : (if s = -1 then r.histSize else s) = n) :
    r.dumpHistory s = .ok (l.rtake (min n (min l.length size))) := by
  obtain ⟨t, hlaid, hlast, hend⟩ := h.laid
  have hstop := Nat.mod_lt t.length h.pos
  have hlen := congrArg List.length hlast
  rw [length_rtake, length_rtake] at hlen
  -- the stream that is laid out has the same last bytes
  have hsame : t.rtake (min n (min l.length size)) = l.rtake (min n (min l.length size)) := by
    rw [← rtake_rtake t (n := size) (by omega), ← rtake_rtake l (n := size) (by omega), hlast]
  have hclip : (if (n : Int) > r.bytesInHistory then r.bytesInHistory else n) =
      (min n (min l.length size) : Nat) := by
    rw [h.bytes]
    split <;> omega
  unfold OutputRedirector.dumpHistory
  dsimp only
  rw [hs, hclip, ← hsame]
  generalize hm : min n (min l.length size) = m
  by_cases hwrap : t.length % size < m
  · have hstart : r.histEnd - m + r.histSize = (t.length % size + size - m : Nat) := by
      rw [h.histSize, hend]
      omega
    have hnum : -(r.histEnd - m) = (m - t.length % size : Nat) := by
      rw [hend]
      omega
    rw [if_pos (by rw [hend]; omega), writeOut_run hstart hnum h.histSize (by omega),
      except_bind_ok, writeOut_run Nat.cast_zero.symm hend h.histSize (by omega),
      ← hlaid.read_wrap hwrap (by omega) (by omega)]
    rfl
  · have hstart : r.histEnd - m = (t.length % size - m : Nat) := by
      rw [hend]
      omega
    rw [if_neg (by rw [hend]; omega), writeOut_run hstart rfl h.histSize (by omega),
      ← hlaid.read_front (by omega) (by omega) (by omega)]

end

/-- The new history holds nothing. -/
theorem keeps_new (history : Buffer) : Keeps (new history) 65536 [] where
  histSize := rfl
  pos := by decide
  bytes := rfl
  laid := ⟨[], laid_nil _ _, rfl, rfl⟩

/-- Behind any sequence of calls of `storeInHistory`, `dumpHistory` writes the last bytes in their
order: as many as it is asked for, as were stored and as the history can hold. -/
theorem dumpHistory_storeAll (history : Buffer) (blocks : List (List UInt8)) :
    ∃ r, (new history).storeAll blocks = .ok r ∧
      r.dumpHistory (-1) = .ok (blocks.flatten.rtake (min blocks.flatten.length 65536)) ∧
      ∀ s : Nat, r.dumpHistory s =
        .ok (blocks.flatten.rtake (min s (min blocks.flatten.length 65536))) := by
  obtain ⟨r, hrun, hkeeps⟩ := (keeps_new history).storeAll blocks
  rw [List.nil_append] at hkeeps
  refine ⟨r, hrun, ?_, fun s => hkeeps.dumpHistory (if_neg (by omega))⟩
  rw [hkeeps.dumpHistory (n := 65536) (by rw [if_pos rfl, hkeeps.histSize])]
  congr 2
  omega

end Awds.Proofs
