import Awds.CryptoHelpers
import Awds.Proofs.Topology.Links

/-!
# `Awds.Proofs.Crypto.KeyFile`: the key that is read from a file

`readKeyFromFile` is to return true if it has read a key, in digits or in bytes, and false
otherwise. It has no way to return false: a file that cannot be opened makes it write a byte in
front of its buffer, and of a file with less than 16 bytes the key contains what was on the stack.
It also writes a byte behind the buffer when the buffer is full.

`expectedKey` is the key of a file, where `hexPairs` reads pairs of digits with spaces in front of
each. The loop of the function takes more for digits than these: `sscanf` skips any white space,
and it takes a sign or a single digit for a number. It looks at a `place`, skips the spaces there,
and goes on two characters behind them. `scanKey_of_hexPairs` is the induction that relates the loop
to the pairs of digits, and `scanKey_eq_none_iff` and `scanKey_eq_some_iff` are those that relate it
to the places. `readsKey_iff` says for which files the function does what it should.
-/

set_option autoImplicit false

namespace Awds.Proofs

open Awds.Lib

/-- `n` pairs of hexadecimal digits, each with spaces in front of it or none. -/
def hexPairs : Nat → List UInt8 → Option (List UInt8)
  | 0, _ => some []
  | n + 1, s => match s.dropWhile (· = 32) with
    | a :: b :: rest =>
      if isDigit 16 a && isDigit 16 b then
        (hexPairs n rest).map (UInt8.ofNat (ofDigits 16 [a, b]) :: ·)
      else none
    | _ => none

/-- The key of a file: 16 pairs of digits if there are 32 bytes or more, and the first 16 bytes
otherwise. -/
def expectedKey : KeyFile → Option (List UInt8)
  | .bytes bs =>
    if bs.length < 16 then none
    else if bs.length < 32 then some (bs.take 16)
    else some ((hexPairs 16 bs).getD (bs.take 16))
  | _ => none

/-- The function stays in its buffer, and it returns true exactly if the file has a key, which is
then the one that it sets. -/
def ReadsKey (file : KeyFile) (stack : Buffer) : Prop :=
  ∃ ok key, readKeyFromFile file stack = .ok (ok, key) ∧
    (ok = true ↔ (expectedKey file).isSome = true) ∧ ∀ k, expectedKey file = some k → key = k

/-- The buffer behind the call of `read`, with the zero. -/
def keyBuffer (stack : Buffer) (bs : List UInt8) : Buffer :=
  (stack.write 0 bs).write bs.length [0]

/-- The position behind the spaces. -/
def skipSpaces (buf : Buffer) (pos : Nat) : Nat :=
  pos + ((buf.read pos (keyBufSize - pos)).takeWhile (· = 32)).length

/-- Where number `k` is looked for, from `pos` on. -/
def place (buf : Buffer) : Nat → Nat → Nat
  | pos, 0 => skipSpaces buf pos
  | pos, k + 1 => place buf (skipSpaces buf pos + 2) k

/-- The string at a position ends in the buffer. -/
def Ended (buf : Buffer) (pos : Nat) : Prop :=
  0 ∈ buf.read pos (keyBufSize - pos)

/-- The number that `sscanf` finds at a position. -/
def numberAt (buf : Buffer) (pos : Nat) : Option Int :=
  scanHex2 ((buf.read pos (keyBufSize - pos)).takeWhile (· ≠ 0))

/-- Of `n` places one is without a number, and no string in front of it leaves the buffer. -/
def LacksNumber (buf : Buffer) (pos n : Nat) : Prop :=
  ∃ k < n, (∀ j ≤ k, Ended buf (place buf pos j)) ∧ numberAt buf (place buf pos k) = none

/-- The numbers at the places are some bytes. -/
def NumbersAre (buf : Buffer) (pos : Nat) (key : List UInt8) : Prop :=
  ∀ k (hk : k < key.length), Ended buf (place buf pos k) ∧
    ∃ v, numberAt buf (place buf pos k) = some v ∧ key[k] = UInt8.ofNat (v % 256).toNat

section

variable {stack : Buffer} {bs vs : List UInt8} {n pos : Nat}

/-! ### The buffer -/

/-- The bytes that were read, with the zero behind them. -/
theorem keyBuffer_eq (stack : Buffer) (bs : List UInt8) :
    keyBuffer stack bs = stack.write 0 (bs ++ [0]) := by
  unfold keyBuffer
  have hwrite := Buffer.write_write_append stack 0 bs [0]
  rwa [Nat.zero_add] at hwrite

/-- The first bytes of the buffer. -/
theorem read_keyBuffer (h : n ≤ bs.length) : (keyBuffer stack bs).read 0 n = bs.take n := by
  rw [keyBuffer_eq, Buffer.read_write_part _ _ (by rw [List.length_append]; omega), List.drop_zero,
    List.take_append_of_le_length h]

/-- What stands behind the first zero is not part of the string. -/
theorem takeWhile_zero (s t : List UInt8) :
    (s ++ 0 :: t).takeWhile (· ≠ 0) = s.takeWhile (· ≠ 0) := by
  induction s with
  | nil => rfl
  | cons c s ih => simp only [List.cons_append, List.takeWhile_cons, ih]

/-- A string in the buffer ends with the bytes that were read, if not in front of that. -/
theorem stringAt_keyBuffer (hpos : pos ≤ bs.length) (hlen : bs.length < keyBufSize) :
    stringAt (keyBuffer stack bs) pos = .ok ((bs.drop pos).takeWhile (· ≠ 0)) := by
  have hread : (keyBuffer stack bs).read pos (keyBufSize - pos) = bs.drop pos ++
      0 :: (keyBuffer stack bs).read (bs.length + 1) (keyBufSize - (bs.length + 1)) := by
    have hsplit := Buffer.read_add (keyBuffer stack bs) pos (bs.length + 1 - pos)
      (keyBufSize - (bs.length + 1))
    rw [show bs.length + 1 - pos + (keyBufSize - (bs.length + 1)) = keyBufSize - pos by omega,
      show pos + (bs.length + 1 - pos) = bs.length + 1 by omega] at hsplit
    have hfirst : (keyBuffer stack bs).read pos (bs.length + 1 - pos) = bs.drop pos ++ [0] := by
      rw [keyBuffer_eq, Buffer.read_write_part _ _ (by simp; omega),
        List.drop_append_of_le_length hpos, List.take_of_length_le (by simp; omega)]
    rw [hsplit, hfirst, List.append_assoc, List.singleton_append]
  unfold stringAt
  dsimp only
  rw [hread, if_pos (by simp), takeWhile_zero]

/-! ### Pairs of digits -/

/-- A digit is no zero byte, no white space and no sign. -/
theorem digit_cases : ∀ c : UInt8, isDigit 16 c = true →
    c ≠ 0 ∧ c ≠ 32 ∧ isSpace c = false ∧ c ≠ 45 ∧ c ≠ 43 := by
  decide +kernel

/-- Two hexadecimal digits are read as one byte. -/
theorem scanHex2_pair {a b : UInt8} (ha : isDigit 16 a = true) (hb : isDigit 16 b = true)
    (s : List UInt8) : scanHex2 (a :: b :: s) = some ((ofDigits 16 [a, b] : Nat) : Int) := by
  obtain ⟨-, -, hspace, hminus, hplus⟩ := digit_cases a ha
  have hsign : readSign (a :: b :: s) = (false, a :: b :: s) := by
    simp only [readSign, hminus, hplus, if_false]
  unfold scanHex2
  simp only [List.dropWhile_cons, hspace, Bool.false_eq_true, if_false, hsign, Nat.sub_self,
    Nat.sub_zero, List.take_succ_cons, List.take_zero, List.takeWhile_cons, ha, hb, if_true,
    List.takeWhile_nil, List.isEmpty_cons]

/-- The first of some pairs: spaces, two digits, and the other pairs. -/
theorem of_hexPairs_succ {s : List UInt8} (h : hexPairs (n + 1) s = some vs) :
    ∃ sp a b rest ws, s = sp ++ a :: b :: rest ∧ (∀ c ∈ sp, c = 32) ∧ isDigit 16 a = true ∧
      isDigit 16 b = true ∧ hexPairs n rest = some ws ∧
      vs = UInt8.ofNat (ofDigits 16 [a, b]) :: ws := by
  unfold hexPairs at h
  split at h
  · rename_i a b rest hdrop
    split at h
    · rename_i hdigits
      obtain ⟨ha, hb⟩ := Bool.and_eq_true_iff.mp hdigits
      obtain ⟨ws, hrest, rfl⟩ := Option.map_eq_some_iff.mp h
      refine ⟨s.takeWhile (· = 32), a, b, rest, ws, ?_, ?_, ha, hb, hrest, rfl⟩
      · rw [← hdrop, List.takeWhile_append_dropWhile]
      · intro c hc
        simpa using List.mem_takeWhile_imp hc
    · cases h
  · cases h

/-- The spaces in front of a character that is none. -/
theorem takeWhile_spaces {sp : List UInt8} {a : UInt8} (hsp : ∀ c ∈ sp, c = 32) (ha : a ≠ 32)
    (s : List UInt8) : (sp ++ a :: s).takeWhile (· = 32) = sp ∧
      (sp ++ a :: s).dropWhile (· = 32) = a :: s := by
  have hall : ∀ c ∈ sp, decide (c = 32) = true := by simpa using hsp
  constructor
  · rw [List.takeWhile_append_of_pos hall, List.takeWhile_cons_of_neg (by simpa using ha),
      List.append_nil]
  · rw [List.dropWhile_append_of_pos hall, List.dropWhile_cons_of_neg (by simpa using ha)]

/-- The cast of a number that was read to a byte. -/
theorem ofNat_emod (v : Nat) : UInt8.ofNat ((v : Int) % 256).toNat = UInt8.ofNat v := by
  rw [show ((v : Int) % 256).toNat = v % 256 by omega]
  exact UInt8.ofNat_mod_size

/-- The loop reads what is written in pairs of digits. -/
theorem scanKey_of_hexPairs (hpos : pos ≤ bs.length) (hlen : bs.length < keyBufSize)
    (h : hexPairs n (bs.drop pos) = some vs) :
    scanKey (keyBuffer stack bs) n pos = .ok (some vs) := by
  induction n generalizing pos vs with
  | zero =>
    cases h
    rfl
  | succ n ih =>
    obtain ⟨sp, a, b, rest, ws, hdrop, hsp, ha, hb, hrest, rfl⟩ := of_hexPairs_succ h
    have hzero : ∀ c ∈ sp, c ≠ 0 := by
      intro c hc
      rw [hsp c hc]
      decide
    have hlenDrop := congrArg List.length hdrop
    simp only [List.length_drop, List.length_append, List.length_cons] at hlenDrop
    -- The string behind the spaces begins with the two digits.
    have hstring : (bs.drop pos).takeWhile (· ≠ 0) =
        sp ++ a :: b :: rest.takeWhile (· ≠ 0) := by
      rw [hdrop, List.takeWhile_append_of_pos (by simpa using hzero), List.takeWhile_cons_of_pos
        (by simpa using (digit_cases a ha).1), List.takeWhile_cons_of_pos
        (by simpa using (digit_cases b hb).1)]
    have hspaces := takeWhile_spaces hsp (digit_cases a ha).2.1 (b :: rest.takeWhile (· ≠ 0))
    -- The loop goes on with what is behind them.
    have hnext : bs.drop (pos + sp.length + 2) = rest := by
      rw [Nat.add_assoc, ← List.drop_drop, hdrop, ← List.drop_drop, List.drop_left]
      rfl
    rw [scanKey, stringAt_keyBuffer hpos hlen, except_bind_ok, hstring, hspaces.1, hspaces.2,
      scanHex2_pair ha hb]
    dsimp only
    rw [ih (by omega) (by rw [hnext]; exact hrest), except_bind_ok, Option.map_some,
      ofNat_emod]

/-! ### The places -/

/-- What is read from a position is what is read from one in front of it, less the beginning. -/
theorem drop_read (buf : Buffer) (k : Nat) :
    (buf.read pos (keyBufSize - pos)).drop k =
      buf.read (pos + k) (keyBufSize - (pos + k)) := by
  by_cases hk : k ≤ keyBufSize - pos
  · have hsplit := Buffer.read_add buf pos k (keyBufSize - (pos + k))
    rw [show k + (keyBufSize - (pos + k)) = keyBufSize - pos by omega] at hsplit
    rw [hsplit, List.drop_left' (Buffer.length_read _ _ _)]
  · rw [List.drop_eq_nil_of_le (by rw [Buffer.length_read]; omega),
      show keyBufSize - (pos + k) = 0 by omega]
    rfl

/-- The string behind the spaces is the one at the next place. -/
theorem dropWhile_spaces (s : List UInt8) : (s.takeWhile (· ≠ 0)).dropWhile (· = 32) =
      (s.drop (s.takeWhile (· = 32)).length).takeWhile (· ≠ 0) ∧
    (s.takeWhile (· ≠ 0)).takeWhile (· = 32) = s.takeWhile (· = 32) ∧
    (0 ∈ s.drop (s.takeWhile (· = 32)).length ↔ 0 ∈ s) := by
  induction s with
  | nil => exact ⟨rfl, rfl, Iff.rfl⟩
  | cons c s ih =>
    -- A space is skipped, and any other character ends the spaces.
    by_cases hspace : c = 32
    · subst hspace
      simpa using ih
    · by_cases hzero : c = 0
      · subst hzero
        simp
      · simp [hspace, hzero]

/-- One step of the loop, by the place that it looks at. -/
theorem scanKey_succ (buf : Buffer) (n pos : Nat) :
    (¬ Ended buf (skipSpaces buf pos) ∧ scanKey buf (n + 1) pos = .error .outOfBounds) ∨
    (Ended buf (skipSpaces buf pos) ∧ numberAt buf (skipSpaces buf pos) = none ∧
      scanKey buf (n + 1) pos = .ok none) ∨
    (Ended buf (skipSpaces buf pos) ∧ ∃ v, numberAt buf (skipSpaces buf pos) = some v ∧
      scanKey buf (n + 1) pos = scanKey buf n (skipSpaces buf pos + 2) >>= fun rest =>
        .ok (rest.map (UInt8.ofNat (v % 256).toNat :: ·))) := by
  obtain ⟨hrest, hspaces, hended⟩ := dropWhile_spaces (buf.read pos (keyBufSize - pos))
  rw [drop_read] at hrest hended
  -- A string of the buffer has to end in it.
  by_cases hzero : 0 ∈ buf.read pos (keyBufSize - pos)
  · have hstring : stringAt buf pos =
        .ok ((buf.read pos (keyBufSize - pos)).takeWhile (· ≠ 0)) :=
      if_pos (List.any_eq_true.mpr ⟨0, hzero, rfl⟩)
    cases hnumber : numberAt buf (skipSpaces buf pos) with
    | none =>
      refine .inr (.inl ⟨hended.mpr hzero, rfl, ?_⟩)
      rw [scanKey, hstring, except_bind_ok, hrest]
      simp only [numberAt, skipSpaces] at hnumber
      rw [hnumber]
    | some v =>
      refine .inr (.inr ⟨hended.mpr hzero, v, rfl, ?_⟩)
      rw [scanKey, hstring, except_bind_ok, hrest, hspaces]
      simp only [numberAt, skipSpaces] at hnumber
      rw [hnumber]
      rfl
  · have hstring : stringAt buf pos = .error .outOfBounds :=
      if_neg (by simpa using hzero)
    refine .inl ⟨fun h => hzero (hended.mp h), ?_⟩
    rw [scanKey, hstring]
    rfl

/-- The loop meets a parse error exactly if a number is missing. -/
theorem scanKey_eq_none_iff (buf : Buffer) (n pos : Nat) :
    scanKey buf n pos = .ok none ↔ LacksNumber buf pos n := by
  induction n generalizing pos with
  | zero =>
    constructor
    · intro h
      cases h
    · rintro ⟨k, hk, -⟩
      omega
  | succ n ih =>
    rcases scanKey_succ buf n pos with ⟨hended, hscan⟩ | ⟨hended, hnumber, hscan⟩ |
      ⟨hended, v, hnumber, hscan⟩
    · -- The first place is not in the buffer.
      rw [hscan]
      constructor
      · intro h
        cases h
      · rintro ⟨k, -, hall, -⟩
        exact absurd (hall 0 (Nat.zero_le _)) hended
    · -- The first place has no number.
      rw [hscan]
      refine ⟨fun _ => ⟨0, Nat.succ_pos _, fun j hj => ?_, hnumber⟩, fun _ => rfl⟩
      rw [Nat.le_zero.mp hj]
      exact hended
    · -- The number is here, so the missing one is one of those that follow.
      have hlater : scanKey buf (n + 1) pos = .ok none ↔
          scanKey buf n (skipSpaces buf pos + 2) = .ok none := by
        rw [hscan, bind_eq_ok]
        constructor
        · rintro ⟨rest, hrest, hmap⟩
          rw [hrest, Option.map_eq_none_iff.mp (Except.ok.inj hmap)]
        · intro hrest
          exact ⟨none, hrest, rfl⟩
      rw [hlater, ih]
      constructor
      · rintro ⟨k, hk, hall, hnone⟩
        refine ⟨k + 1, Nat.succ_lt_succ hk, fun j hj => ?_, hnone⟩
        cases j with
        | zero => exact hended
        | succ j => exact hall j (Nat.le_of_succ_le_succ hj)
      · rintro ⟨k, hk, hall, hnone⟩
        cases k with
        | zero =>
          have hsome : numberAt buf (place buf pos 0) = some v := hnumber
          rw [hsome] at hnone
          cases hnone
        | succ k =>
          exact ⟨k, Nat.lt_of_succ_lt_succ hk,
            fun j hj => hall (j + 1) (Nat.succ_le_succ hj), hnone⟩

/-- The loop ends with some bytes exactly if they are the numbers. -/
theorem scanKey_eq_some_iff (buf : Buffer) (key : List UInt8) (pos : Nat) :
    scanKey buf key.length pos = .ok (some key) ↔ NumbersAre buf pos key := by
  induction key generalizing pos with
  | nil =>
    refine ⟨fun _ k hk => ?_, fun _ => rfl⟩
    cases hk
  | cons c key ih =>
    rcases scanKey_succ buf key.length pos with ⟨hended, hscan⟩ | ⟨hended, hnumber, hscan⟩ |
      ⟨hended, v, hnumber, hscan⟩
    · -- As above, but here the first place has the first byte of the key.
      rw [List.length_cons, hscan]
      constructor
      · intro h
        cases h
      · intro hall
        exact absurd (hall 0 (Nat.succ_pos _)).1 hended
    · rw [List.length_cons, hscan]
      constructor
      · intro h
        cases h
      · intro hall
        obtain ⟨v, hv, -⟩ := (hall 0 (Nat.succ_pos _)).2
        have hnone : numberAt buf (place buf pos 0) = none := hnumber
        rw [hv] at hnone
        cases hnone
    · rw [List.length_cons, hscan, bind_eq_ok]
      constructor
      · -- The number at the first place is the first byte, and the others follow by the hypothesis.
        rintro ⟨rest, hrest, hmap⟩
        obtain ⟨key', hkey', hcons⟩ := Option.map_eq_some_iff.mp (Except.ok.inj hmap)
        injection hcons with hc htail
        rw [hkey', htail] at hrest
        intro k hk
        cases k with
        | zero => exact ⟨hended, v, hnumber, hc.symm⟩
        | succ k => exact (ih _).mp hrest k (Nat.lt_of_succ_lt_succ hk)
      · intro hall
        have hrest := (ih (skipSpaces buf pos + 2)).mpr
          fun k hk => hall (k + 1) (Nat.succ_lt_succ hk)
        obtain ⟨w, hw, hc⟩ := (hall 0 (Nat.succ_pos _)).2
        have hv : numberAt buf (place buf pos 0) = some v := hnumber
        rw [hw] at hv
        refine ⟨some key, hrest, ?_⟩
        rw [Option.map_some, ← Option.some.inj hv, ← hc]
        rfl

/-! ### The function -/

/-- The function for what fits into the buffer together with the zero. -/
theorem readKeyFromFile_bytes (stack : Buffer) (h16 : 16 ≤ bs.length)
    (hlen : bs.length < keyBufSize) :
    readKeyFromFile (.bytes bs) stack =
      ((if 32 ≤ bs.length then scanKey (keyBuffer stack bs) 16 0 else .ok none) >>= fun parsed =>
        .ok (true, parsed.getD (bs.take 16))) := by
  have hret : (KeyFile.bytes bs).ret = bs.length := rfl
  have hfits : ¬ ((KeyFile.bytes bs).ret < 0 ∨ (keyBufSize : Int) ≤ (KeyFile.bytes bs).ret) := by
    omega
  unfold readKeyFromFile
  dsimp only
  rw [if_neg hfits]
  have hread : (keyBuffer stack bs).read 0 16 = bs.take 16 := read_keyBuffer h16
  -- Without a parsed key the first bytes of the buffer are copied.
  by_cases h32 : 32 ≤ bs.length
  · rw [if_pos (show (KeyFile.bytes bs).ret ≥ 32 by omega), if_pos h32]
    congr 1
    funext parsed
    cases parsed with
    | none => exact congrArg (fun key => Except.ok (true, key)) hread
    | some newkey => rfl
  · rw [if_neg (show ¬ (KeyFile.bytes bs).ret ≥ 32 by omega), if_neg h32]
    exact congrArg (fun key => Except.ok (true, key)) hread

/-- Whatever else `open` and `read` give, the zero is written outside of the buffer, or less than
16 bytes are there. -/
theorem of_readKeyFromFile_ok {file : KeyFile} {x : Bool × List UInt8}
    (h : readKeyFromFile file stack = .ok x) :
    x.1 = true ∧ ∃ bs, file = .bytes bs ∧ bs.length < keyBufSize := by
  unfold readKeyFromFile at h
  simp only at h
  split at h
  · cases h
  · rename_i hfits
    constructor
    · split at h <;> obtain ⟨parsed, -, hx⟩ := bind_eq_ok.mp h <;> cases parsed <;>
        (cases hx; rfl)
    · cases file with
      | openFails => exact absurd (.inl (by decide)) hfits
      | readFails => exact absurd (.inl (by decide)) hfits
      | bytes bs =>
        simp only [KeyFile.ret, not_or, Int.not_lt, Int.not_le] at hfits
        exact ⟨bs, rfl, by omega⟩

/-- The key of a file with 16 bytes or more. -/
theorem expectedKey_bytes (h16 : 16 ≤ bs.length) : expectedKey (.bytes bs) =
    some (if 32 ≤ bs.length then (hexPairs 16 bs).getD (bs.take 16) else bs.take 16) := by
  simp only [expectedKey, if_neg (Nat.not_lt.mpr h16)]
  split <;> split <;> first | rfl | omega

/-- The function does what it should if it sets the key of the file. -/
theorem readsKey_of_expected {file : KeyFile} {key : List UInt8}
    (hrun : readKeyFromFile file stack = .ok (true, key)) (hkey : expectedKey file = some key) :
    ReadsKey file stack := by
  refine ⟨true, key, hrun, ?_, fun k hk => ?_⟩
  · rw [hkey]
    exact ⟨fun _ => rfl, fun _ => rfl⟩
  · rw [hkey] at hk
    exact Option.some.inj hk

end

/-- The function does what it should exactly for a file that can be read, with 16 bytes or more
and less than the buffer is long. If there are 32 bytes or more, they also have to be pairs of
digits, or one of the 16 places has to be without a number, unless the numbers there are the first
bytes themselves. -/
theorem readsKey_iff (file : KeyFile) (stack : Buffer) : ReadsKey file stack ↔
    ∃ bs, file = .bytes bs ∧ 16 ≤ bs.length ∧ bs.length < keyBufSize ∧
      (32 ≤ bs.length → (hexPairs 16 bs).isSome = true ∨
        LacksNumber (keyBuffer stack bs) 0 16 ∨
        NumbersAre (keyBuffer stack bs) 0 (bs.take 16)) := by
  constructor
  · rintro ⟨ok, key, hrun, hok, hkey⟩
    -- The function never returns false, so the file has a key.
    obtain ⟨htrue, bs, rfl, hlen⟩ := of_readKeyFromFile_ok hrun
    obtain ⟨k, hk⟩ := Option.isSome_iff_exists.mp (hok.mp htrue)
    have h16 : 16 ≤ bs.length := by
      by_contra hshort
      rw [expectedKey, if_pos (Nat.not_le.mp hshort)] at hk
      cases hk
    refine ⟨bs, rfl, h16, hlen, fun h32 => ?_⟩
    rw [readKeyFromFile_bytes stack h16 hlen, if_pos h32] at hrun
    obtain ⟨parsed, hscan, hparsed⟩ := bind_eq_ok.mp hrun
    have h16take : (bs.take 16).length = 16 := List.length_take_of_le h16
    rw [expectedKey_bytes h16, if_pos h32] at hk
    cases hpairs : hexPairs 16 bs with
    | some ks => exact .inl rfl
    | none =>
      -- Without pairs the key is to be the first bytes.
      rw [hpairs] at hk
      cases parsed with
      | none => exact .inr (.inl ((scanKey_eq_none_iff _ _ _).mp hscan))
      | some newkey =>
        have hnew : newkey = key := congrArg Prod.snd (Except.ok.inj hparsed)
        rw [hnew, hkey k (by rw [expectedKey_bytes h16, if_pos h32, hpairs]; exact hk),
          ← Option.some.inj hk] at hscan
        refine .inr (.inr ((scanKey_eq_some_iff _ _ _).mp ?_))
        rw [h16take]
        exact hscan
  · rintro ⟨bs, rfl, h16, hlen, hscan⟩
    have hexpected := expectedKey_bytes h16
    by_cases h32 : 32 ≤ bs.length
    · -- In each case the loop gives the key of the file, or leaves it to the first bytes.
      obtain ⟨parsed, hparsed, hkey⟩ : ∃ parsed, scanKey (keyBuffer stack bs) 16 0 = .ok parsed ∧
          parsed.getD (bs.take 16) = (hexPairs 16 bs).getD (bs.take 16) := by
        cases hpairs : hexPairs 16 bs with
        | some ks =>
          exact ⟨some ks, scanKey_of_hexPairs (Nat.zero_le _) hlen hpairs, rfl⟩
        | none =>
          rw [hpairs] at hscan
          rcases hscan h32 with hsome | hnone | hfirst
          · cases hsome
          · exact ⟨none, (scanKey_eq_none_iff _ _ _).mpr hnone, rfl⟩
          · have hscanned := (scanKey_eq_some_iff _ _ _).mpr hfirst
            rw [List.length_take_of_le h16] at hscanned
            exact ⟨some (bs.take 16), hscanned, rfl⟩
      rw [if_pos h32, ← hkey] at hexpected
      apply readsKey_of_expected _ hexpected
      rw [readKeyFromFile_bytes stack h16 hlen, if_pos h32, hparsed]
      rfl
    · rw [if_neg h32] at hexpected
      apply readsKey_of_expected _ hexpected
      rw [readKeyFromFile_bytes stack h16 hlen, if_neg h32]
      rfl

/-- Without a file a byte in front of the buffer is written, and of an empty file the key is what
was on the stack. -/
theorem readKeyFromFile_undefined :
    readKeyFromFile .openFails (fun _ => 1) = .error .outOfBounds ∧
      keyOfUnit (.bytes []) (fun _ => 1) = .ok (0 :: List.replicate 15 1) ∧
      keyOfUnit (.bytes []) (fun _ => 2) = .ok (0 :: List.replicate 15 2) ∧
      ¬ ReadsKey .openFails (fun _ => 1) ∧ ¬ ReadsKey (.bytes []) (fun _ => 1) := by
  refine ⟨rfl, rfl, rfl, ?_, ?_⟩
  · rintro ⟨ok, key, hrun, -, -⟩
    cases hrun
  · rintro ⟨ok, key, hrun, hok, -⟩
    have hkey := hok.mp (of_readKeyFromFile_ok hrun).1
    cases hkey

end Awds.Proofs
