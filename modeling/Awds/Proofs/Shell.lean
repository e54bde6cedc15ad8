import Awds.Proofs.Topology.Links
import Awds.Shell

/-!
# `Awds.Proofs.Shell`: the lines of a shell client

`read_client_data` keeps the length of the buffer below its size by cutting it down to 1023, and
it looks for newlines below that length. A newline that comes with 1023 bytes in front of it is
stored at the last index, where it is not found: the client is stuck from then on.

* `readStream_spec`: no stream makes a write outside of the buffer. As long as all lines are
  shorter than 1023 bytes the buffer holds the open line, and the lines that have ended were
  parsed. After a longer one the client is stuck.
* `lines_served_iff`: the lines of a stream are served exactly if they are all shorter than 1023
  bytes.
-/

set_option autoImplicit false

namespace Awds.Proofs

open Awds.Lib Awds.TcpShellClient

variable {c c' : TcpShellClient} {b : UInt8} {s : List UInt8}

/-! ### The parts of the handler -/

/-- A store within the buffer. -/
theorem store_ok {off : Nat} {bs : List UInt8} (h : off + bs.length ≤ cmdBufMax) :
    c.store off bs = .ok { c with cmdBuf := c.cmdBuf.write off bs } := if_pos h

/-- A token and what is behind it. -/
theorem strtok_length {front token rest : List UInt8} (h : strtok s = some (token, front, rest)) :
    front.length + rest.length = s.length := by
  have hsplit := congrArg List.length (List.takeWhile_append_dropWhile (p := isIfs) (l := s))
  have hrest := congrArg List.length
    (List.takeWhile_append_dropWhile (p := fun x => !isIfs x) (l := s.dropWhile isIfs))
  rw [List.length_append] at hsplit hrest
  unfold strtok at h
  dsimp only at h
  generalize (s.dropWhile isIfs).takeWhile (fun x => !isIfs x) = found at h hrest
  generalize (s.dropWhile isIfs).dropWhile (fun x => !isIfs x) = behind at h hrest
  cases found with
  | nil => cases h
  | cons a found =>
    cases behind with
    | nil =>
      cases h
      rw [List.length_append, List.length_nil] at *
      omega
    | cons d behind =>
      cases h
      simp only [List.length_append, List.length_cons, List.length_nil] at *
      omega

/-- The arguments are cut out in place. -/
theorem parseArgs_length (n : Nat) (s : List UInt8) : (parseArgs n s).2.length = s.length := by
  induction n generalizing s with
  | zero => rfl
  | succ n ih =>
    rw [parseArgs]
    split
    · rfl
    · rename_i token front rest h
      simp only [List.length_append, ih]
      exact strtok_length h

/-- The commands of a line. -/
def commandsOf (line : List UInt8) : List (List (List UInt8)) :=
  if 0 ∈ line ∨ (parseArgs (cmdParamMax - 1) line).1 = [] then []
  else [(parseArgs (cmdParamMax - 1) line).1]

/-- `parse_command` on a line in the buffer. -/
theorem parseCommand_spec {n : Nat} (hpos : 0 < n) (hn : n ≤ cmdBufMax) :
    ∃ c', c.parseCommand n = .ok c' ∧ c'.parsed = c.parsed ++ [c.cmdBuf.read 0 n] ∧
      c'.cmdBufLen = c.cmdBufLen ∧
      c'.executed = c.executed ++ commandsOf (c.cmdBuf.read 0 n) := by
  unfold parseCommand commandsOf
  by_cases hnul : 0 ∈ c.cmdBuf.read 0 n
  · rw [if_pos (.inr (.inr hnul)), if_pos (.inl hnul)]
    exact ⟨_, rfl, rfl, rfl, (List.append_nil _).symm⟩
  · have hlegal : ¬ (n = 0 ∨ n > cmdBufMax ∨ 0 ∈ c.cmdBuf.read 0 n) := by
      rintro (h | h | h)
      · omega
      · omega
      · exact hnul h
    have hleft := parseArgs_length (cmdParamMax - 1) (c.cmdBuf.read 0 n)
    rw [Buffer.length_read] at hleft
    simp only [if_neg hlegal]
    rw [store_ok (by omega)]
    refine ⟨_, rfl, ?_⟩
    unfold exec
    by_cases hargs : (parseArgs (cmdParamMax - 1) (c.cmdBuf.read 0 n)).1 = []
    · rw [if_pos hargs, if_pos (.inr hargs)]
      exact ⟨rfl, rfl, (List.append_nil _).symm⟩
    · rw [if_neg hargs, if_neg (not_or.mpr ⟨hnul, hargs⟩)]
      exact ⟨rfl, rfl, rfl⟩

/-- The line in front of the newline, if it is not empty. -/
def lineOf (line : List UInt8) : List (List UInt8) := [line].filter fun line => !line.isEmpty

/-- The end of the loop for a newline that is the last byte of the buffer: nothing is left. -/
theorem shift_last {n : Nat} (hlen : c.cmdBufLen = n + 1) :
    (do
      let c ← c.store 0 (c.cmdBuf.read (n + 1) (c.cmdBufLen - n - 1))
      if c.cmdBufLen < 1 + n then .error .assertion
      else .ok { c with cmdBufLen := c.cmdBufLen - (1 + n) } : Result TcpShellClient)
      = .ok { c with cmdBufLen := 0 } := by
  have hnone : c.cmdBuf.read (n + 1) (c.cmdBufLen - n - 1) = [] := by
    rw [hlen, show n + 1 - n - 1 = 0 by omega]
    rfl
  rw [hnone, store_ok (by simp), Buffer.write_nil]
  show (if c.cmdBufLen < 1 + n then _ else _) = _
  rw [if_neg (by omega), hlen, show n + 1 - (1 + n) = 0 by omega]

/-- A line whose newline is the last byte of the buffer. -/
theorem takeLine_last {n : Nat} (hlen : c.cmdBufLen = n + 1) (hn : n + 1 < cmdBufMax) :
    ∃ c', c.takeLine n = .ok c' ∧ c'.cmdBufLen = 0 ∧
      c'.parsed = c.parsed ++ lineOf (c.cmdBuf.read 0 n) ∧
      c'.executed = c.executed ++ (lineOf (c.cmdBuf.read 0 n)).flatMap commandsOf := by
  have hread : (c.cmdBuf.write n [0]).read 0 n = c.cmdBuf.read 0 n :=
    Buffer.read_write_disjoint _ _ (.inl (by omega))
  unfold takeLine
  rw [store_ok (by simp only [List.length_singleton]; omega)]
  -- A line that is not empty is parsed, and nothing is left behind it.
  by_cases hpos : n > 0
  · obtain ⟨c₂, hparse, hparsed, hlen₂, hexecuted⟩ := parseCommand_spec
      (c := { c with cmdBuf := c.cmdBuf.write n [0] }) hpos (by omega)
    have hline : lineOf (c.cmdBuf.read 0 n) = [c.cmdBuf.read 0 n] := by
      have hfull : c.cmdBuf.read 0 n ≠ [] := by
        rw [← List.length_pos_iff, Buffer.length_read]
        exact hpos
      simp [lineOf, hfull]
    rw [hread] at hparsed hexecuted
    refine ⟨{ c₂ with cmdBufLen := 0 }, ?_, rfl, ?_, ?_⟩
    · simp only [if_pos hpos]
      refine bind_eq_ok.mpr ⟨_, rfl, ?_⟩
      exact bind_eq_ok.mpr ⟨c₂, hparse, shift_last (hlen₂.trans hlen)⟩
    · rw [hline]
      exact hparsed
    · rw [hline]
      simpa using hexecuted
  · -- an empty line is not parsed
    have hzero : n = 0 := by omega
    subst hzero
    refine ⟨{ c with cmdBuf := c.cmdBuf.write 0 [0], cmdBufLen := 0 }, ?_, rfl, ?_, ?_⟩
    · exact shift_last (c := { c with cmdBuf := c.cmdBuf.write 0 [0] }) hlen
    · exact (List.append_nil _).symm
    · exact (List.append_nil _).symm

/-- A line that has no newline ends nowhere. -/
theorem findIdx?_newline {line : List UInt8} (h : newline ∉ line) :
    line.findIdx? (· == newline) = none := by
  rw [List.findIdx?_eq_none_iff]
  intro x hx
  simpa using fun heq : x = newline => h (heq ▸ hx)

/-- Without a newline the loop ends at once. -/
theorem takeLines_open (n : Nat) (h : newline ∉ c.cmdBuf.read 0 c.cmdBufLen) :
    takeLines (n + 1) c = .ok c := by
  rw [takeLines, findIdx?_newline h]

/-! ### One byte -/

/-- The buffer holds the bytes `line`, with no newline among them. -/
structure HoldsLine (c : TcpShellClient) (line : List UInt8) : Prop where
  bounded : c.cmdBufLen < cmdBufMax
  content : c.cmdBuf.read 0 c.cmdBufLen = line
  noNewline : newline ∉ line

/-- The length field is the length of the line. -/
theorem HoldsLine.length {line : List UInt8} (h : HoldsLine c line) :
    c.cmdBufLen = line.length := by
  rw [← h.content, Buffer.length_read]

/-- The buffer with one more byte. -/
theorem HoldsLine.read_write {line : List UInt8} (h : HoldsLine c line) (b : UInt8) :
    (c.cmdBuf.write c.cmdBufLen [b]).read 0 (c.cmdBufLen + 1) = line ++ [b] := by
  have hfront : (c.cmdBuf.write c.cmdBufLen [b]).read 0 c.cmdBufLen = line := by
    rw [Buffer.read_write_disjoint _ _ (.inl (by omega))]
    exact h.content
  have hlast := Buffer.read_write_self c.cmdBuf c.cmdBufLen [b]
  rw [Buffer.read_add, hfront, Nat.zero_add]
  exact congrArg (line ++ ·) hlast

/-- The front of a block. -/
theorem take_read (buf : Buffer) (off : Nat) {m n : Nat} (h : m ≤ n) :
    (buf.read off n).take m = buf.read off m := by
  rw [show n = m + (n - m) by omega, Buffer.read_add, List.take_left' (by simp)]

/-- A byte that does not end a line, or the last one that fits: it extends the line as long as
this is below the size of the buffer. -/
theorem readClientData_open {line : List UInt8} (h : HoldsLine c line)
    (hb : b ≠ newline ∨ line.length = cmdBufMax - 1) :
    ∃ c', c.readClientData b = .ok c' ∧ HoldsLine c' ((line ++ [b]).take (cmdBufMax - 1)) ∧
      c'.parsed = c.parsed ∧ c'.executed = c.executed := by
  have hbounded := h.bounded
  have hlength := h.length
  have hmax : cmdBufMax = 1024 := rfl
  -- The length counts the byte, but it never gets over the end of the buffer.
  obtain ⟨len, hlen⟩ : ∃ len, (if c.cmdBufLen + 1 ≥ cmdBufMax then cmdBufMax - 1
      else c.cmdBufLen + 1) = len := ⟨_, rfl⟩
  have hle : len = min (c.cmdBufLen + 1) (cmdBufMax - 1) := by
    rw [← hlen]
    split <;> omega
  -- The buffer holds the line with the byte behind it, as far as it fits.
  have hcontent : (c.cmdBuf.write c.cmdBufLen [b]).read 0 len
      = (line ++ [b]).take (cmdBufMax - 1) := by
    rw [← take_read _ _ (show len ≤ c.cmdBufLen + 1 by omega), h.read_write b,
      List.take_eq_take_iff, List.length_append, List.length_singleton]
    omega
  -- There is still no end of a line in it.
  have hnew : newline ∉ (line ++ [b]).take (cmdBufMax - 1) := by
    rcases hb with hb | hb
    · intro hmem
      have := List.mem_of_mem_take hmem
      simp only [List.mem_append, List.mem_singleton] at this
      exact this.elim h.noNewline fun heq => hb heq.symm
    · -- the byte behind a full line is not looked at
      rw [List.take_left' hb]
      exact h.noNewline
  refine ⟨{ c with cmdBuf := c.cmdBuf.write c.cmdBufLen [b], cmdBufLen := len }, ?_, ?_, rfl, rfl⟩
  · unfold readClientData
    rw [store_ok (by simp only [List.length_singleton]; omega)]
    refine bind_eq_ok.mpr ⟨_, rfl, ?_⟩
    simp only [hlen]
    exact takeLines_open _ (by rwa [← hcontent] at hnew)
  · exact ⟨show len < cmdBufMax by omega, hcontent, hnew⟩

/-- A newline in a buffer with a free byte. -/
theorem readClientData_newline {line : List UInt8} (h : HoldsLine c line)
    (hlt : line.length + 1 < cmdBufMax) :
    ∃ c', c.readClientData newline = .ok c' ∧ HoldsLine c' [] ∧
      c'.parsed = c.parsed ++ lineOf line ∧
      c'.executed = c.executed ++ (lineOf line).flatMap commandsOf := by
  have hlength := h.length
  -- The first end of a line is the byte that came.
  have hfound : (line ++ [newline]).findIdx? (· == newline) = some line.length := by
    rw [List.findIdx?_append, findIdx?_newline h.noNewline]
    simp
  obtain ⟨c', htake, hempty, hparsed, hexecuted⟩ := takeLine_last
    (c := { c with cmdBuf := c.cmdBuf.write c.cmdBufLen [newline], cmdBufLen := c.cmdBufLen + 1 })
    (n := line.length) (by rw [hlength]) hlt
  -- What is parsed is the line in front of it.
  have hline : (c.cmdBuf.write c.cmdBufLen [newline]).read 0 line.length = line := by
    rw [← hlength, Buffer.read_write_disjoint _ _ (.inl (by omega))]
    exact h.content
  rw [hline] at hparsed hexecuted
  -- Nothing is left in the buffer, so the loop ends.
  have hnone : newline ∉ c'.cmdBuf.read 0 c'.cmdBufLen := by
    rw [hempty]
    exact List.not_mem_nil
  refine ⟨c', ?_, ⟨by rw [hempty]; decide, by rw [hempty]; rfl, List.not_mem_nil⟩, hparsed,
    hexecuted⟩
  unfold readClientData
  rw [store_ok (by simp only [List.length_singleton]; omega)]
  refine bind_eq_ok.mpr ⟨_, rfl, ?_⟩
  have hlen : (if c.cmdBufLen + 1 ≥ cmdBufMax then cmdBufMax - 1 else c.cmdBufLen + 1)
      = c.cmdBufLen + 1 := if_neg (by omega)
  simp only [hlen]
  rw [takeLines]
  simp only [h.read_write, hfound]
  exact bind_eq_ok.mpr ⟨c', htake, takeLines_open _ hnone⟩

/-! ### Streams -/

/-- The complete lines of the stream are shorter than 1023 bytes. -/
def AllShort (s : List UInt8) : Prop :=
  ∀ line ∈ (splitLines newline s).1, line.length < cmdBufMax - 1

/-- The client behind the stream `s`. -/
structure KeepsUp (s : List UInt8) (c : TcpShellClient) : Prop where
  -- the open line may be longer than the buffer
  short : AllShort s → HoldsLine c ((splitLines newline s).2.take (cmdBufMax - 1)) ∧
    c.parsed = (splitLines newline s).1.filter fun line => !line.isEmpty
  stuck : ¬ AllShort s → ∃ line, HoldsLine c line ∧ line.length = cmdBufMax - 1
  executed : c.executed = c.parsed.flatMap commandsOf

/-- Cutting a line down before or behind its last byte gives the same. -/
theorem take_snoc {α : Type} (l : List α) (a : α) (n : Nat) :
    (l.take n ++ [a]).take n = (l ++ [a]).take n := by
  by_cases h : l.length ≤ n
  · rw [List.take_of_length_le h]
  · have hlen : (l.take n).length = n := List.length_take_of_le (by omega)
    rw [List.take_left' hlen, List.take_append_of_le_length (by omega)]

/-- A client whose buffer is full is stuck. -/
theorem stuck_step {line : List UInt8} (h : HoldsLine c line) (hfull : line.length = cmdBufMax - 1)
    (b : UInt8) :
    ∃ c', c.readClientData b = .ok c' ∧ HoldsLine c' line ∧ c'.parsed = c.parsed ∧
      c'.executed = c.executed := by
  have hstep := readClientData_open (b := b) h (.inr hfull)
  rwa [List.take_left' hfull] at hstep

/-- A stream with short lines has short lines in front of its last byte. -/
theorem allShort_of_snoc {b : UInt8} (h : AllShort (s ++ [b])) : AllShort s := fun line hline =>
  h line ((splitLines_mono (List.prefix_append s [b])).subset hline)

/-- A newline behind a line that fits. -/
theorem keepsUp_newline (h : KeepsUp s c) (hshort : AllShort s)
    (hlt : (splitLines newline s).2.length < cmdBufMax - 1) :
    ∃ c', c.readClientData newline = .ok c' ∧ KeepsUp (s ++ [newline]) c' := by
  have hlines : splitLines newline (s ++ [newline])
      = ((splitLines newline s).1 ++ [(splitLines newline s).2], []) := splitLines_sep s
  have hnew : AllShort (s ++ [newline]) := by
    unfold AllShort
    rw [hlines]
    intro line hline
    rcases List.mem_append.mp hline with hline | hline
    · exact hshort line hline
    · rwa [List.mem_singleton.mp hline]
  obtain ⟨hholds, hparsed⟩ := h.short hshort
  rw [List.take_of_length_le hlt.le] at hholds
  obtain ⟨c', hread, hholds', hparsed', hexecuted⟩ := readClientData_newline hholds (by omega)
  refine ⟨c', hread, fun _ => ?_, fun hnot => absurd hnew hnot, ?_⟩
  · rw [hlines]
    refine ⟨hholds', ?_⟩
    rw [hparsed', hparsed, List.filter_append]
    rfl
  · rw [hexecuted, hparsed', h.executed, List.flatMap_append]

/-- A newline behind a line that does not fit is stored at the last index and not found. -/
theorem keepsUp_lost (h : KeepsUp s c) (hshort : AllShort s)
    (hge : ¬ (splitLines newline s).2.length < cmdBufMax - 1) :
    ∃ c', c.readClientData newline = .ok c' ∧ KeepsUp (s ++ [newline]) c' := by
  have hnot : ¬ AllShort (s ++ [newline]) := by
    intro hall
    refine hge (hall _ ?_)
    rw [splitLines_sep]
    exact List.mem_append_right _ (List.mem_singleton_self _)
  have hfull : ((splitLines newline s).2.take (cmdBufMax - 1)).length = cmdBufMax - 1 :=
    List.length_take_of_le (by omega)
  obtain ⟨c', hread, hholds, hparsed, hexecuted⟩ := stuck_step (h.short hshort).1 hfull newline
  refine ⟨c', hread, fun hall => absurd hall hnot, fun _ => ⟨_, hholds, hfull⟩, ?_⟩
  rw [hexecuted, hparsed, h.executed]

/-- A byte of the open line. -/
theorem keepsUp_open (h : KeepsUp s c) (hshort : AllShort s) (hb : b ≠ newline) :
    ∃ c', c.readClientData b = .ok c' ∧ KeepsUp (s ++ [b]) c' := by
  obtain ⟨hholds, hparsed⟩ := h.short hshort
  obtain ⟨c', hread, hholds', hparsed', hexecuted⟩ := readClientData_open hholds (.inl hb)
  rw [take_snoc] at hholds'
  have hlines := splitLines_other s hb
  have hnew : AllShort (s ++ [b]) := by
    unfold AllShort
    rw [hlines]
    exact hshort
  refine ⟨c', hread, fun _ => ?_, fun hnot => absurd hnew hnot, ?_⟩
  · rw [hlines]
    exact ⟨hholds', hparsed'.trans hparsed⟩
  · rw [hexecuted, hparsed', h.executed]

/-- One more byte of the stream. -/
theorem keepsUp_step (h : KeepsUp s c) (b : UInt8) :
    ∃ c', c.readClientData b = .ok c' ∧ KeepsUp (s ++ [b]) c' := by
  by_cases hshort : AllShort s
  · by_cases hb : b = newline
    · subst hb
      by_cases hlt : (splitLines newline s).2.length < cmdBufMax - 1
      · exact keepsUp_newline h hshort hlt
      · exact keepsUp_lost h hshort hlt
    · exact keepsUp_open h hshort hb
  · obtain ⟨line, hholds, hfull⟩ := h.stuck hshort
    obtain ⟨c', hread, hholds', hparsed, hexecuted⟩ := stuck_step hholds hfull b
    refine ⟨c', hread, fun hall => absurd (allShort_of_snoc hall) hshort,
      fun _ => ⟨line, hholds', hfull⟩, ?_⟩
    rw [hexecuted, hparsed, h.executed]

/-- One more byte of the stream is one more call. -/
theorem readStream_snoc (c : TcpShellClient) (s : List UInt8) (b : UInt8) :
    c.readStream (s ++ [b]) = c.readStream s >>= fun c => c.readClientData b := by
  simp [readStream, List.foldlM_append]

/-- No stream makes a write outside of the buffer, whatever was in it. -/
theorem readStream_spec (buf : Buffer) (s : List UInt8) :
    ∃ c, readStream { cmdBuf := buf } s = .ok c ∧ KeepsUp s c := by
  induction s using List.reverseRecOn with
  | nil =>
    refine ⟨{ cmdBuf := buf }, rfl, fun _ => ⟨⟨?_, rfl, ?_⟩, rfl⟩, fun hnot => ?_, rfl⟩
    · show 0 < cmdBufMax
      decide
    · simp
    · exact absurd (fun line hline => absurd hline List.not_mem_nil) hnot
  | append_singleton s b ih =>
    obtain ⟨c, hread, hkeeps⟩ := ih
    obtain ⟨c', hstep, hkeeps'⟩ := keepsUp_step hkeeps b
    exact ⟨c', by rw [readStream_snoc, hread]; exact hstep, hkeeps'⟩

/-! ### Serving the lines -/

/-- What `parse_command` may get of a line: the line, or a part of it if it is longer than the
buffer. -/
def CutDown (line part : List UInt8) : Prop :=
  part <+: line ∧ (line.length < cmdBufMax → part = line)

/-- Behind the newline of each line the buffer is empty, and the lines that are not empty were
handed to `parse_command`, each once and in their order. -/
def LinesServed (buf : Buffer) (s : List UInt8) : Prop :=
  ∀ pre, pre ++ [newline] <+: s → ∃ c, readStream { cmdBuf := buf } (pre ++ [newline]) = .ok c ∧
    c.cmdBufLen = 0 ∧
    List.Forall₂ CutDown
      ((splitLines newline (pre ++ [newline])).1.filter fun line => !line.isEmpty) c.parsed

/-- As long as the lines are short, the buffer is empty behind a newline, and every line that is not
empty was served. -/
theorem KeepsUp.served {pre : List UInt8} (h : KeepsUp (pre ++ [newline]) c)
    (hshort : AllShort (pre ++ [newline])) :
    c.cmdBufLen = 0 ∧ List.Forall₂ CutDown
      ((splitLines newline (pre ++ [newline])).1.filter fun line => !line.isEmpty) c.parsed := by
  obtain ⟨hholds, hparsed⟩ := h.short hshort
  have hlen := hholds.length
  rw [splitLines_sep] at hlen
  refine ⟨by simpa using hlen, ?_⟩
  rw [hparsed]
  exact List.forall₂_same.mpr fun line _ => ⟨List.prefix_rfl, fun _ => rfl⟩

/-- At the end of a line that is too long the client is stuck. -/
theorem not_served_of_long (buf : Buffer) (hlong : ¬ AllShort s) : ¬ LinesServed buf s := by
  intro hserved
  have hne : (splitLines newline s).1 ≠ [] := by
    intro hnil
    refine hlong fun line hline => ?_
    rw [hnil] at hline
    cases hline
  obtain ⟨pre, hpre, hlines⟩ := exists_lastLine hne
  obtain ⟨c, hread, hempty, -⟩ := hserved pre hpre
  obtain ⟨c', hread', hkeeps⟩ := readStream_spec buf (pre ++ [newline])
  obtain rfl := Except.ok.inj (hread'.symm.trans hread)
  have hstuck : ¬ AllShort (pre ++ [newline]) := by
    unfold AllShort
    rwa [hlines]
  obtain ⟨line, hholds, hfull⟩ := hkeeps.stuck hstuck
  have hlen := hholds.length
  rw [hempty, hfull] at hlen
  cases hlen

/-- For every content of the buffer and every stream: no write leaves the buffer, and every line
that has ended is served exactly if the lines that have ended are all shorter than 1023 bytes. -/
theorem lines_served_iff (buf : Buffer) (s : List UInt8) :
    (∃ c, readStream { cmdBuf := buf } s = .ok c ∧
      c.executed = c.parsed.flatMap commandsOf) ∧
    (LinesServed buf s ↔ ∀ line ∈ (splitLines newline s).1, line.length < cmdBufMax - 1) := by
  refine ⟨?_, ?_, ?_⟩
  · obtain ⟨c, hread, hkeeps⟩ := readStream_spec buf s
    exact ⟨c, hread, hkeeps.executed⟩
  · intro hserved
    by_contra hlong
    exact not_served_of_long buf hlong hserved
  · intro hshort pre hpre
    obtain ⟨c, hread, hkeeps⟩ := readStream_spec buf (pre ++ [newline])
    exact ⟨c, hread, hkeeps.served fun line hline =>
      hshort line ((splitLines_mono hpre).subset hline)⟩

/-- A first line that is too long is not served, whatever is behind it. -/
theorem not_served_first (buf : Buffer) {line : List UInt8} (hline : newline ∉ line)
    (hlong : cmdBufMax - 1 ≤ line.length) (rest : List UInt8) :
    ¬ LinesServed buf (line ++ [newline] ++ rest) := by
  refine not_served_of_long _ fun hall => ?_
  have hmem : line ∈ (splitLines newline (line ++ [newline])).1 := by
    rw [splitLines_sep, splitLines_of_notMem hline]
    exact List.mem_append_right _ (List.mem_singleton_self _)
  have hlt := hall line ((splitLines_mono (List.prefix_append _ _)).subset hmem)
  omega

/-- A line of 1023 bytes is not served, and neither is the command behind it. -/
theorem shell_stuck :
    ¬ LinesServed (fun _ => 0) (List.replicate 1023 97 ++ [newline] ++ [104, newline]) :=
  not_served_first _ (fun h => absurd (List.eq_of_mem_replicate h) (by decide))
    (List.length_replicate.ge) _

end Awds.Proofs
