import Awds.Lib.Lines
import Awds.Topology.State

/-!
# `Awds.Shell`: the command shell

A client of the shell sends its commands over TCP, a line each. `readClientData` is called for
each byte. It puts the byte behind the others in `cmd_buf`, and while there is a newline in the
buffer it takes the line out of it, hands it to `parse_command` and moves the rest to the front.

`parseCommand` cuts the line into its arguments in place, as `strtok_r` does. The client keeps two
logs that the source does not have: the lines that `parse_command` was called with and the
arguments of the commands that `exec` has looked up. The commands themselves are not part of the
model. They do not block the client here, so it is always idle. A write outside of `cmd_buf` is an
error.
-/

set_option autoImplicit false

namespace Awds

open Awds.Lib

/-- `CMD_BUF_MAX`. -/
abbrev cmdBufMax : Nat := 1024

/-- `CMD_PARAM_MAX`. -/
abbrev cmdParamMax : Nat := 128

/-- The newline. -/
abbrev newline : UInt8 := 10

/-- The characters of `CMD_IFS`. -/
def isIfs (c : UInt8) : Bool := c = 32 || c = 9 || c = 13 || c = 10

/-! ### The arguments of a command -/

/-- `strtok_r` with `CMD_IFS`: the next token, what it leaves of the string up to there, and the
rest of the string. The delimiter behind the token is overwritten. -/
def strtok (s : List UInt8) : Option (List UInt8 × List UInt8 × List UInt8) :=
  let skipped := s.takeWhile isIfs
  let s := s.dropWhile isIfs
  match s.takeWhile (!isIfs ·), s.dropWhile (!isIfs ·) with
  | [], _ => none
  | token, [] => some (token, skipped ++ token, [])
  | token, _ :: rest => some (token, skipped ++ token ++ [0], rest)

/-- The loop of `parse_command`: at most `n` arguments, and what is left of the string. -/
def parseArgs : Nat → List UInt8 → List (List UInt8) × List UInt8
  | 0, s => ([], s)
  | n + 1, s => match strtok s with
    | none => ([], s)
    | some (token, front, rest) =>
      let (argv, left) := parseArgs n rest
      (token :: argv, front ++ left)

/-! ### A client -/

/-- `TcpShellClient`, an idle one. -/
structure TcpShellClient where
  cmdBuf : Buffer
  cmdBufLen : Nat := 0
  parsed : List (List UInt8) := []
  executed : List (List (List UInt8)) := []

namespace TcpShellClient

/-- A write to `cmd_buf`. -/
def store (c : TcpShellClient) (off : Nat) (bs : List UInt8) : Result TcpShellClient :=
  if off + bs.length ≤ cmdBufMax then .ok { c with cmdBuf := c.cmdBuf.write off bs }
  else .error .outOfBounds

/-- `exec`. A line without arguments has no command. -/
def exec (c : TcpShellClient) (argv : List (List UInt8)) : TcpShellClient :=
  if argv = [] then c else { c with executed := c.executed ++ [argv] }

/-- `parse_command`, on the first `len` bytes of the buffer. One place in `argv` is kept for the
end of the list. -/
def parseCommand (c : TcpShellClient) (len : Nat) : Result TcpShellClient :=
  let line := c.cmdBuf.read 0 len
  let c := { c with parsed := c.parsed ++ [line] }
  -- illegal input
  if len = 0 ∨ len > cmdBufMax ∨ 0 ∈ line then .ok c
  else do
    let (argv, left) := parseArgs (cmdParamMax - 1) line
    let c ← c.store 0 left
    .ok (c.exec argv)

/-- The body of the loop of `read_client_data`, for a newline at `nlpos`. -/
def takeLine (c : TcpShellClient) (nlpos : Nat) : Result TcpShellClient := do
  let c ← c.store nlpos [0]
  let c ← if nlpos > 0 then c.parseCommand nlpos else .ok c
  -- now lets shift the remaining input to the buffer start
  let c ← c.store 0 (c.cmdBuf.read (nlpos + 1) (c.cmdBufLen - nlpos - 1))
  if c.cmdBufLen < 1 + nlpos then .error .assertion
  else .ok { c with cmdBufLen := c.cmdBufLen - (1 + nlpos) }

/-- The loop of `read_client_data`, at most `n` tests. -/
def takeLines : Nat → TcpShellClient → Result TcpShellClient
  | 0, _ => .error .diverges
  | n + 1, c => match (c.cmdBuf.read 0 c.cmdBufLen).findIdx? (· == newline) with
    | none => .ok c
    | some nlpos => do
      let c ← c.takeLine nlpos
      takeLines n c

/-- `read_client_data` for the byte `b`. Every turn of the loop shortens the buffer. -/
def readClientData (c : TcpShellClient) (b : UInt8) : Result TcpShellClient := do
  let c ← c.store c.cmdBufLen [b]
  let len := c.cmdBufLen + 1
  let len := if len ≥ cmdBufMax then cmdBufMax - 1 else len
  takeLines (len + 1) { c with cmdBufLen := len }

/-- A client that sends the stream `s`. -/
def readStream (c : TcpShellClient) (s : List UInt8) : Result TcpShellClient :=
  s.foldlM readClientData c

end TcpShellClient

end Awds
