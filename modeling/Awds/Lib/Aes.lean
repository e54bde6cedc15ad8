import Mathlib.Algebra.Group.Defs
import Mathlib.Data.Fin.Basic

/-!
# `Awds.Lib.Aes`: the block cipher AES

The cipher over bytes. A word is four bytes and a state four words, its columns. A round
replaces every byte (`subBytes`), moves the rows (`shiftRows`), multiplies every column by a
matrix over the field of 256 elements (`mixColumns`) and adds four words of the expanded key
(`addRoundKey`).

The byte that replaces `b` is an affine image of the inverse of `b` in the field, and the
inverse is the power 254, so that no table occurs here. `expand nk` are the words of the
expanded key for a key of `nk` words. `cipher w n` is the cipher with `n` rounds and the
expanded key `w`, and `encrypt` the cipher of a key.
-/

set_option autoImplicit false

namespace Awds.Lib.Aes

/-! ### The field

An element is a number below 256, the bits of which are the coefficients of a polynomial. -/

/-- The product with the polynomial `x`, modulo `x^8 + x^4 + x^3 + x + 1`. -/
def xtimes (a : Nat) : Nat := if a < 128 then 2 * a else 2 * a ^^^ 0x11b

/-- The product of two elements, by the lowest `n` bits of the second. -/
def mulBits : Nat → Nat → Nat → Nat
  | 0, _, _ => 0
  | n + 1, a, b => (if b % 2 = 0 then 0 else a) ^^^ mulBits n (xtimes a) (b / 2)

/-- The power `2 ^ (n + 1) - 2` of an element. -/
def invPow : Nat → Nat → Nat
  | 0, _ => 1
  | n + 1, a =>
    let square := mulBits 8 a a
    mulBits 8 square (invPow n square)

/-- The product of two bytes. -/
def mul (a b : UInt8) : UInt8 := .ofNat (mulBits 8 a.toNat b.toNat)

/-- The inverse of a byte, `0` for `0`: the power 254. -/
def inv (b : UInt8) : UInt8 := .ofNat (invPow 7 b.toNat)

/-- The byte turned by `n` bits. -/
def rotl (b : UInt8) (n : UInt8) : UInt8 := (b <<< n) ||| (b >>> (8 - n))

/-- The byte that replaces a byte. -/
def sbox (b : UInt8) : UInt8 :=
  let c := inv b
  c ^^^ rotl c 1 ^^^ rotl c 2 ^^^ rotl c 3 ^^^ rotl c 4 ^^^ 0x63

/-! ### The round -/

/-- Four bytes. -/
abbrev Word := Fin 4 → UInt8

/-- Four words, the columns. The row `r` of the column `c` is `s c r`. -/
abbrev State := Fin 4 → Word

/-- A block of 16 bytes. -/
abbrev Block := Vector UInt8 16

/-- The column of a byte. -/
theorem div_four_lt (i : Fin 16) : i.val / 4 < 4 := by omega

/-- The row of a byte. -/
theorem mod_four_lt (i : Fin 16) : i.val % 4 < 4 := by omega

/-- The state of a block, column by column. -/
def Block.toState (b : Block) : State := fun c r => b[4 * c.val + r.val]

/-- The block of a state. -/
def State.toBlock (s : State) : Block :=
  Vector.ofFn fun i => s ⟨i / 4, div_four_lt i⟩ ⟨i % 4, mod_four_lt i⟩

/-- The sum of two words. -/
def Word.add (a b : Word) : Word := fun r => a r ^^^ b r

/-- The words with every byte replaced. -/
def subWord (a : Word) : Word := fun r => sbox (a r)

/-- The row `k` rows further. -/
def turn (k : Nat) (r : Fin 4) : Fin 4 := ⟨(r + k) % 4, Nat.mod_lt _ (by decide)⟩

/-- The word turned by one byte. -/
def rotWord (a : Word) : Word := fun r => a (turn 1 r)

def subBytes (s : State) : State := fun c => subWord (s c)

def shiftRows (s : State) : State := fun c r => s (c + r) r

/-- One column times the matrix. -/
def mixColumn (a : Word) : Word := fun r =>
  mul 2 (a r) ^^^ mul 3 (a (turn 1 r)) ^^^ a (turn 2 r) ^^^ a (turn 3 r)

def mixColumns (s : State) : State := fun c => mixColumn (s c)

/-- The words of the expanded key from `4 * n` on are added. -/
def addRoundKey (w : Nat → Word) (n : Nat) (s : State) : State := fun c =>
  (s c).add (w (4 * n + c))

/-- The round `n`. -/
def round (w : Nat → Word) (n : Nat) (s : State) : State :=
  addRoundKey w n (mixColumns (shiftRows (subBytes s)))

/-- The last round leaves `mixColumns` out. -/
def lastRound (w : Nat → Word) (n : Nat) (s : State) : State :=
  addRoundKey w n (shiftRows (subBytes s))

/-- The rounds 1 to `n`. -/
def rounds (w : Nat → Word) : Nat → State → State
  | 0, s => s
  | n + 1, s => round w (n + 1) (rounds w n s)

/-- The cipher with `n` rounds. -/
def cipher (w : Nat → Word) (n : Nat) (b : Block) : Block :=
  (lastRound w n (rounds w (n - 1) (addRoundKey w 0 b.toState))).toBlock

/-! ### The key expansion -/

/-- The constant that is added to the word `n * nk`. -/
def rcon (n : Nat) : Word := fun r => if r.val = 0 then .ofNat (xtimes^[n - 1] 1) else 0

/-- What is added to the word `i - nk`, of the word `i - 1`. -/
def expandTemp (nk i : Nat) (a : Word) : Word :=
  if i % nk = 0 then (subWord (rotWord a)).add (rcon (i / nk))
  else if 6 < nk ∧ i % nk = 4 then subWord a
  else a

/-- The words of the expanded key, for the `nk` words of `key`. -/
def expand (nk : Nat) (key : Nat → Word) (i : Nat) : Word :=
  if i < nk ∨ nk = 0 then key i
  else (expand nk key (i - nk)).add (expandTemp nk i (expand nk key (i - 1)))
termination_by i

/-- The words of a key. -/
def keyWords (key : List UInt8) (c : Nat) : Word := fun r => (key[4 * c + r]?).getD 0

/-- The cipher, for a key of 16, 24 or 32 bytes. -/
def encrypt (key : List UInt8) (b : Block) : Block :=
  cipher (expand (key.length / 4) (keyWords key)) (key.length / 4 + 6) b

/-- The first words are the key. -/
theorem expand_of_lt {nk : Nat} {key : Nat → Word} {i : Nat} (h : i < nk) :
    expand nk key i = key i := by
  rw [expand, if_pos (.inl h)]

/-- The other words come from the word before and the one `nk` places back. -/
theorem expand_of_ge {nk : Nat} {key : Nat → Word} {i : Nat} (h0 : 0 < nk) (h : nk ≤ i) :
    expand nk key i
      = (expand nk key (i - nk)).add (expandTemp nk i (expand nk key (i - 1))) := by
  rw [expand, if_neg (by omega)]

end Awds.Lib.Aes
