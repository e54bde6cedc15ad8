import Awds.Topology.Names

/-!
# `Awds.CryptoHelpers`: the key file and the random bytes

`readKeyFromFile` reads at most 128 bytes of the key file into a buffer on the stack. From 32 bytes
on they may be the key in hexadecimal digits, which are read with `sscanf`; otherwise the first 16
bytes are the key. `getRandomByte` fills a destination from `/dev/urandom`, with as many calls of
`read` as it takes.

What `open` and `read` give is a parameter. The access to a byte outside of the buffer is an error.
A random byte that is stored is an entry of a list, with its position in the destination, and the
position may lie behind its end.
-/

set_option autoImplicit false

namespace Awds

open Awds.Lib

/-! ### The key file -/

/-- What `open` and `read` give. -/
inductive KeyFile where
  | openFails
  | readFails
  | bytes (bs : List UInt8)
  deriving DecidableEq, Repr

/-- What `read` returns. Without a file it fails, too. -/
def KeyFile.ret : KeyFile → Int
  | openFails => -1
  | readFails => -1
  | bytes bs => bs.length

/-- What `read` stores. -/
def KeyFile.content : KeyFile → List UInt8
  | openFails => []
  | readFails => []
  | bytes bs => bs

/-- The size of `buf`. -/
abbrev keyBufSize : Nat := 128

/-- The string that begins at `pos`. Its end has to be in the buffer. -/
def stringAt (buf : Buffer) (pos : Nat) : Result (List UInt8) :=
  let bytes := buf.read pos (keyBufSize - pos)
  if bytes.any (· = 0) then .ok (bytes.takeWhile (· ≠ 0)) else .error .outOfBounds

/-- The loop over `n` pairs of digits from `parse_pos` on: the values, or none behind a parse
error. What a parse error leaves in the key is overwritten. -/
def scanKey (buf : Buffer) : Nat → Nat → Result (Option (List UInt8))
  | 0, _ => .ok (some [])
  | n + 1, parsePos => do
    let s ← stringAt buf parsePos
    match scanHex2 (s.dropWhile (· = 32)) with
    | none => .ok none
    | some v => do
      let rest ← scanKey buf n (parsePos + (s.takeWhile (· = 32)).length + 2)
      .ok (rest.map (UInt8.ofNat (v % 256).toNat :: ·))

/-- `readKeyFromFile`: what it returns, and the key. `stack` is what `buf` holds in front of the
call. A failed call of `open` and too few bytes are only written to the debug stream. -/
def readKeyFromFile (file : KeyFile) (stack : Buffer) : Result (Bool × List UInt8) :=
  let ret := file.ret
  let buf := stack.write 0 file.content
  -- the zero behind what was read
  if ret < 0 ∨ (keyBufSize : Int) ≤ ret then .error .outOfBounds
  else do
    let buf := buf.write ret.toNat [0]
    let parsed ← if ret ≥ 32 then scanKey buf 16 0 else .ok none
    match parsed with
    | some newkey => .ok (true, newkey)
    | none => .ok (true, buf.read 0 16)

/-- The part of `gea_main` that sets the key. What `readKeyFromFile` returns is ignored. -/
def keyOfUnit (file : KeyFile) (stack : Buffer) : Result (List UInt8) := do
  let x ← readKeyFromFile file stack
  .ok x.2

/-! ### Random bytes -/

/-- What a call of `read` gives: it is interrupted, it fails, or it stores some bytes. -/
inductive RandomRead where
  | interrupted
  | fails
  | bytes (bs : List UInt8)
  deriving DecidableEq, Repr

/-- Some bytes with their positions, from `cdest` on. -/
def storedAt (cdest : Nat) (bs : List UInt8) : List (Nat × UInt8) :=
  (bs.zipIdx cdest).map Prod.swap

/-- The loop of `getRandomByte`, with `num` bytes to go and what the calls of `read` give. A call
that waits for ever has no result. -/
def randomLoop : Nat → Nat → List RandomRead → Result (List (Nat × UInt8))
  | _, 0, _ => .ok []
  | _, _ + 1, [] => .error .diverges
  | cdest, num + 1, .interrupted :: reads => randomLoop cdest (num + 1) reads
  | _, _ + 1, .fails :: _ => .error .assertion
  | cdest, num + 1, .bytes bs :: reads => do
    -- the pointer moves by the bytes that are left
    let later ← randomLoop (cdest + (num + 1 - bs.length)) (num + 1 - bs.length) reads
    .ok (storedAt cdest bs ++ later)

/-- `getRandomByte`: the bytes that are stored. -/
def getRandomByte (opened : Bool) (num : Nat) (reads : List RandomRead) :
    Result (List (Nat × UInt8)) :=
  if !opened then .error .assertion else randomLoop 0 num reads

/-- The constructor of `AesCcmCryptoUnit`: the bytes of the nonce, which is 16 bytes long. -/
def newNonce (opened : Bool) (reads : List RandomRead) : Result (List (Nat × UInt8)) :=
  getRandomByte opened 16 reads

end Awds
