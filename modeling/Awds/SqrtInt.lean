/-!
# `Awds.SqrtInt`: the integer square root of a `long`

`isqrt` of `sqrt_int.c`, with the `long` of a machine of 64 bits. The difference of two `long`s is
undefined where it is no `long`. The shifts and the `|` of the source keep the sign bit.
-/

set_option autoImplicit false

namespace Awds

/-- A `long` of 64 bits. -/
abbrev Long := BitVec 64

namespace SqrtInt

/-- What keeps a call from a result. -/
inductive Failure where
  | overflow
  | diverges
  deriving DecidableEq, Repr

/-- `a - b`. -/
def sub (a b : Long) : Except Failure Long :=
  if a.ssubOverflow b then .error .overflow else .ok (a - b)

/-- The variables of the loop. -/
structure State where
  squaredbit : Long
  remainder : Long
  root : Long

/-- The first squared bit, from two shifts of an `unsigned long`. -/
def firstBit : Long := (~~~(0 : Long) >>> 1) &&& ~~~(~~~(0 : Long) >>> 2)

/-- One turn of the loop. -/
def turn (s : State) : Except Failure State :=
  if (s.squaredbit ||| s.root).sle s.remainder then do
    let remainder ← sub s.remainder (s.squaredbit ||| s.root)
    .ok { squaredbit := s.squaredbit.sshiftRight 2
          remainder := remainder
          root := s.root.sshiftRight 1 ||| s.squaredbit }
  else
    .ok { s with squaredbit := s.squaredbit.sshiftRight 2, root := s.root.sshiftRight 1 }

/-- The loop, at most `n` tests of its condition. -/
def loop : Nat → State → Except Failure Long
  | 0, _ => .error .diverges
  | n + 1, s =>
    if (0 : Long).slt s.squaredbit then do
      let s ← turn s
      loop n s
    else .ok s.root

/-- `isqrt`. -/
def isqrt (n : Nat) (x : Long) : Except Failure Long :=
  if x.slt 1 then .ok 0 else loop n ⟨firstBit, x, 0⟩

end SqrtInt

end Awds
