import Awds.Topology.State

/-!
# `Awds.Topology.Names`: nodes by their names

`getNodeByName` resolves a name: it is the name of a node, or the twelve hexadecimal digits of an
identifier, or a number.

A name is a C string, the list of its characters without the terminator. Of the C library the
functions `strncmp`, `sscanf` with the format `%2X`, `strtoul` and `strtol` with the base 0, and
`atoi` are modelled, in the C locale and with a `long` of 64 bits.
-/

set_option autoImplicit false

namespace Awds

open Std

/-! ### Numbers -/

/-- `isspace`. -/
def isSpace (c : UInt8) : Bool := c = 32 || (9 ≤ c && c ≤ 13)

/-- The value of a digit, and of a letter that stands for one. -/
def digitValue (c : UInt8) : Option Nat :=
  if 48 ≤ c && c ≤ 57 then some (c.toNat - 48)
  else if 65 ≤ c && c ≤ 90 then some (c.toNat - 55)
  else if 97 ≤ c && c ≤ 122 then some (c.toNat - 87)
  else none

/-- A digit of a base. -/
def isDigit (base : Nat) (c : UInt8) : Bool := (digitValue c).any (· < base)

/-- The number that some digits stand for. -/
def ofDigits (base : Nat) (ds : List UInt8) : Nat :=
  ds.foldl (fun n c => n * base + (digitValue c).getD 0) 0

/-- An optional sign: whether it is a minus, and what is behind it. -/
def readSign (s : List UInt8) : Bool × List UInt8 :=
  match s with
  | [] => (false, [])
  | c :: s => if c = 45 then (true, s) else if c = 43 then (false, s) else (false, c :: s)

/-- The base that a number is written in: 16 behind `0x`, 8 behind `0`, and 10. -/
def readBase (s : List UInt8) : Nat × List UInt8 :=
  match s with
  | c :: x :: d :: s =>
    if c = 48 && (x = 120 || x = 88) && isDigit 16 d then (16, d :: s)
    else (if c = 48 then 8 else 10, c :: x :: d :: s)
  | c :: s => (if c = 48 then 8 else 10, c :: s)
  | [] => (10, [])

/-- `strtoul` with the base 0: the number and what is behind it, or none if there is no
number. -/
def strtoul (s : List UInt8) : Option (Nat × List UInt8) :=
  let (negative, s) := readSign (s.dropWhile isSpace)
  let (base, s) := readBase s
  let digits := s.takeWhile (isDigit base)
  if digits.isEmpty then none
  else
    let n := ofDigits base digits
    let v := if 2 ^ 64 ≤ n then 2 ^ 64 - 1 else if negative then (2 ^ 64 - n) % 2 ^ 64 else n
    some (v, s.dropWhile (isDigit base))

/-- The `long` that is read: a number that does not fit is the one next to it. -/
def toLong (negative : Bool) (n : Nat) : Int :=
  if negative then max (-n) (-2 ^ 63) else min n (2 ^ 63 - 1)

/-- `strtol` with the base 0: the number and what is behind it, or none if there is no number. -/
def strtol (s : List UInt8) : Option (Int × List UInt8) :=
  let (negative, s) := readSign (s.dropWhile isSpace)
  let (base, s) := readBase s
  let digits := s.takeWhile (isDigit base)
  if digits.isEmpty then none
  else some (toLong negative (ofDigits base digits), s.dropWhile (isDigit base))

/-- `atoi`: `strtol` with the base 10, cut to an `int`. Without a number it is 0. -/
def atoi (s : List UInt8) : Int :=
  let (negative, s) := readSign (s.dropWhile isSpace)
  Int.bmod (toLong negative (ofDigits 10 (s.takeWhile (isDigit 10)))) (2 ^ 32)

/-- `sscanf` with the format `%2X`: at most two characters behind the white space, a sign
included. -/
def scanHex2 (s : List UInt8) : Option Int :=
  let s := s.dropWhile isSpace
  let (negative, t) := readSign s
  let digits := (t.take (2 - (s.length - t.length))).takeWhile (isDigit 16)
  if digits.isEmpty then none
  else
    let n := ofDigits 16 digits
    some (if negative then -n else n)

/-! ### Names -/

/-- `c_str`. The strings of this model have no character beyond 255. -/
def cStr (s : String) : List UInt8 := s.toList.map fun c => UInt8.ofNat c.toNat

/-- Whether `strncmp` finds no difference. -/
def strncmpEq (a b : List UInt8) (n : Nat) : Bool := decide (a.take n = b.take n)

/-- The loop over the six pairs of digits. -/
def parseMac (name : List UInt8) : Option (List UInt8) :=
  (List.range 6).mapM fun i =>
    (scanHex2 (name.drop (2 * i))).map fun v => UInt8.ofNat (v % 256).toNat

/-- `getNodeByName`. The constructor of `NodeId` takes an `unsigned`. -/
def AdjList.getNodeByName (adj : AdjList) (name : List UInt8) : Option NodeId :=
  -- try to find topology entry.
  match adj.toList.find? fun e => strncmpEq name e.2.nodeName 32 with
  | some e => some e.1
  | none =>
    -- try to convert 12 hex-digit syntax
    match if name.length = 12 then parseMac name else none with
    | some mac => some (NodeId.fromArray mac)
    | none =>
      -- try nummerical conversation.
      match strtoul name with
      | some (v, []) => some (Fin.ofNat _ (v % 2 ^ 32))
      | _ => none

end Awds
