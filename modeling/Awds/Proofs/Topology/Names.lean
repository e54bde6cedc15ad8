import Awds.Lib.Substitution
import Awds.Topology.Names
import Awds.Proofs.Topology.Entries

/-!
# `Awds.Proofs.Topology.Names`: which names lead back to their node

`getNameOfNode` quotes the special characters of a name, and appends the identifier in brackets
when the name is empty or shared. `getNodeByName` compares what it is given with the raw names,
by their first 32 characters at most.

So the string of a node leads back to the node in two cases only (`Identified`). Its name has no
special character and no other node has it. Or its name has all of the 32 characters, begins
like its quoted form, and no node with a smaller identifier has it. A quoted form that begins
with a name is a matter of the substitution `quoteBytes` (`Echoes`), and `echoWord` is how such
a name goes on from its first special character.

No other string of `getNameOfNode` is resolved to its node: the two number formats do not accept
a quoted character or a suffix (`no_number`).
-/

set_option autoImplicit false

namespace Awds.Proofs

open Std (ExtTreeMap)
open Awds.Lib Awds.AdjList Awds.RTopology

/-! ### Quoted characters -/

/-- A character that is not quoted. -/
def isPlain (c : UInt8) : Bool := isAlnum c || plainChars.contains (Char.ofNat c.toNat)

/-- The bytes of a character of a name as it is printed. -/
def quoteBytes (c : UInt8) : List UInt8 := (quoteChar c).map fun ch => UInt8.ofNat ch.toNat

/-- What is true of the 256 numbers of one byte is true of every character. -/
theorem forall_byte {P : UInt8 → Prop} (h : ∀ n < 256, P (UInt8.ofNat n)) (c : UInt8) : P c := by
  have hc := h c.toNat c.toNat_lt
  rwa [UInt8.ofNat_toNat] at hc

/-- A plain character is printed as it is. All bytes are tried. -/
theorem quoteBytes_of_plain {c : UInt8} : isPlain c = true → quoteBytes c = [c] :=
  forall_byte (P := fun c => isPlain c = true → quoteBytes c = [c]) (by decide +kernel) c

/-- A quoted character has at least four characters, and the first two are `&#`. -/
theorem quoteBytes_of_special {c : UInt8} (h : isPlain c = false) :
    ∃ rest, quoteBytes c = 38 :: 35 :: rest ∧ 2 ≤ rest.length := by
  have hstart : (quoteBytes c).take 2 = [38, 35] ∧ 4 ≤ (quoteBytes c).length :=
    forall_byte (P := fun c => isPlain c = false →
      (quoteBytes c).take 2 = [38, 35] ∧ 4 ≤ (quoteBytes c).length) (by decide +kernel) c h
  refine ⟨(quoteBytes c).drop 2, ?_, ?_⟩
  · calc quoteBytes c
        = (quoteBytes c).take 2 ++ (quoteBytes c).drop 2 := (List.take_append_drop 2 _).symm
      _ = 38 :: 35 :: (quoteBytes c).drop 2 := by rw [hstart.1]; rfl
  · rw [List.length_drop]
    omega

/-- Every character is printed somehow, so a quoted name is not shorter than the name. -/
theorem quoteBytes_ne_nil (c : UInt8) : quoteBytes c ≠ [] := by
  cases hc : isPlain c with
  | true =>
    rw [quoteBytes_of_plain hc]
    exact List.cons_ne_nil c []
  | false =>
    obtain ⟨rest, hrest, -⟩ := quoteBytes_of_special hc
    rw [hrest]
    exact List.cons_ne_nil 38 _

/-- A name as it is printed. -/
def quoted (name : List UInt8) : List UInt8 := name.flatMap quoteBytes

/-- The characters that the quoted form of a name goes on with, from its first special character
on, if it begins with the name: `&#38;&#35;38;&#38;&#35;35;38;&#3`. -/
def echoWord : List UInt8 :=
  [38, 35, 51, 56, 59, 38, 35, 51, 53, 59, 51, 56, 59, 38, 35, 51, 56, 59, 38, 35, 51, 53, 59,
    51, 53, 59, 51, 56, 59, 38, 35, 51]

/-- The names of full length whose quoted form begins with them. -/
def BeginsQuoted (name : List UInt8) : Prop :=
  ∃ a k, name = a ++ echoWord.take k ∧ ∀ c ∈ a, isPlain c = true

/-- The first special character of a name splits it. -/
theorem plain_or_split (name : List UInt8) :
    (∀ c ∈ name, isPlain c = true) ∨
      ∃ a c r, name = a ++ c :: r ∧ (∀ d ∈ a, isPlain d = true) ∧ isPlain c = false := by
  induction name with
  | nil => exact .inl fun c hc => by cases hc
  | cons d name ih =>
    cases hd : isPlain d with
    | false => exact .inr ⟨[], d, name, rfl, fun c hc => (by cases hc), hd⟩
    | true =>
      rcases ih with hall | ⟨a, c, r, rfl, ha, hc⟩
      · exact .inl fun c hc => (List.mem_cons.mp hc).elim (fun h => h ▸ hd) (hall c)
      · exact .inr ⟨d :: a, c, r, rfl,
          fun e he => (List.mem_cons.mp he).elim (fun h => h ▸ hd) (ha e), hc⟩

/-- The names that echo. Behind their plain characters they are determined by the first special
one, which is `&`. -/
theorem echoes_quote_iff {name : List UInt8} (hlen : name.length ≤ 32) :
    Echoes quoteBytes name ↔ BeginsQuoted name := by
  have hword : Echoes quoteBytes (38 :: echoWord.tail) := by decide +kernel
  constructor
  · intro h
    rcases plain_or_split name with hall | ⟨a, c, r, rfl, ha, hc⟩
    · exact ⟨name, 0, (List.append_nil name).symm, hall⟩
    · have hrest := (echoes_append_iff fun d hd => quoteBytes_of_plain (ha d hd)).mp h
      obtain ⟨tail, hquote, -⟩ := quoteBytes_of_special hc
      have hhead := hrest.head quoteBytes_ne_nil
      rw [hquote, List.head?_cons, Option.some.injEq] at hhead
      subst hhead
      rw [List.length_append, List.length_cons] at hlen
      -- the word is as long as a name can be
      have hshort : r.length ≤ echoWord.tail.length := by
        show r.length ≤ 31
        omega
      have hunique := hrest.take_unique quoteBytes_ne_nil (by rw [hquote]; simp) hword r.length
        (Nat.le_refl _) hshort
      refine ⟨a, r.length + 1, ?_, ha⟩
      rw [List.take_length] at hunique
      show a ++ 38 :: r = a ++ 38 :: echoWord.tail.take r.length
      rw [← hunique]
  · rintro ⟨a, k, rfl, ha⟩
    exact (echoes_append_iff fun d hd => quoteBytes_of_plain (ha d hd)).mpr
      (Echoes.take quoteBytes_ne_nil hword k)

/-! ### Numbers -/

/-- A character that a number may have. -/
def isNumeric (c : UInt8) : Bool := isSpace c || c = 43 || c = 45 || isAlnum c

/-- A digit in any base up to 36 is a digit or a letter. -/
theorem isAlnum_of_isDigit {base : Nat} {c : UInt8} (h : isDigit base c = true) :
    isAlnum c = true := by
  have hvalue : (digitValue c).isSome = true → isAlnum c = true :=
    forall_byte (P := fun c => (digitValue c).isSome = true → isAlnum c = true)
      (by decide +kernel) c
  refine hvalue ?_
  unfold isDigit at h
  obtain ⟨v, hv, -⟩ := (Option.any_eq_true _ _).mp h
  rw [hv]
  rfl

/-- `strtoul` reads a sign away. -/
theorem mem_readSign {s : List UInt8} {c : UInt8} (h : c ∈ s) :
    isNumeric c = true ∨ c ∈ (readSign s).2 := by
  unfold readSign
  cases s with
  | nil => cases h
  | cons d s =>
    simp only
    split
    · rename_i hminus
      exact (List.mem_cons.mp h).imp (fun hc => by rw [hc, hminus]; decide) id
    split
    · rename_i hplus
      exact (List.mem_cons.mp h).imp (fun hc => by rw [hc, hplus]; decide) id
    · exact .inr h

/-- It also reads the mark of the base away. These characters are numeric, too. -/
theorem mem_readBase {s : List UInt8} {c : UInt8} (h : c ∈ s) :
    isNumeric c = true ∨ c ∈ (readBase s).2 := by
  unfold readBase
  split
  · rename_i d x e t
    split
    · rename_i hhex
      simp only [Bool.and_eq_true, Bool.or_eq_true, decide_eq_true_eq] at hhex
      obtain ⟨⟨hd, hx⟩, -⟩ := hhex
      rcases List.mem_cons.mp h with rfl | h
      · exact .inl (by rw [hd]; decide)
      · rcases List.mem_cons.mp h with rfl | h
        · exact .inl (hx.elim (fun hc => by rw [hc]; decide) fun hc => by rw [hc]; decide)
        · exact .inr h
    · exact .inr h
  · exact .inr h
  · cases h

/-- A number to the end of a string has numeric characters only. -/
theorem isNumeric_of_strtoul {s : List UInt8} {v : Nat} (h : strtoul s = some (v, [])) :
    ∀ c ∈ s, isNumeric c = true := by
  intro c hc
  unfold strtoul at h
  simp only at h
  split at h
  · cases h
  obtain ⟨-, hrest⟩ := Prod.mk.inj (Option.some.inj h)
  -- the characters are white space, a sign, the mark of a base, or digits
  rcases List.mem_append.mp (List.takeWhile_append_dropWhile (p := isSpace) (l := s) ▸ hc) with
    hc | hc
  · have hspace := List.mem_takeWhile_imp hc
    simp only [isNumeric, hspace, Bool.true_or]
  rcases mem_readSign hc with hc | hc
  · exact hc
  rcases mem_readBase hc with hc | hc
  · exact hc
  · have hdigit := isAlnum_of_isDigit (List.dropWhile_eq_nil_iff.mp hrest c hc)
    simp only [isNumeric, hdigit, Bool.or_true]

/-- A pair of digits does not begin with a quote. -/
theorem scanHex2_of_quote {c : UInt8} (h : c = 38 ∨ c = 35) (s : List UInt8) :
    scanHex2 (c :: s) = none := by
  have hspace : isSpace c = false := by rcases h with rfl | rfl <;> decide
  have hdigit : isDigit 16 c = false := by rcases h with rfl | rfl <;> decide
  have hsign : readSign (c :: s) = (false, c :: s) := by rcases h with rfl | rfl <;> rfl
  unfold scanHex2
  simp only [List.dropWhile_cons, hspace, Bool.false_eq_true, if_false, hsign, Nat.sub_self,
    Nat.sub_zero, List.take_succ_cons, List.takeWhile_cons, hdigit, List.isEmpty_nil, if_true]

/-- Where `mapM` succeeds, it succeeds on every element. -/
theorem mapM_some_mem {α β : Type} {f : α → Option β} :
    ∀ {l : List α} {r : List β}, l.mapM f = some r → ∀ a ∈ l, ∃ b, f a = some b := by
  intro l
  induction l with
  | nil => exact fun _ a ha => by cases ha
  | cons x l ih =>
    intro r h a ha
    rw [List.mapM_cons] at h
    obtain ⟨b, hb, h⟩ := Option.bind_eq_some_iff.mp h
    obtain ⟨bs, hbs, -⟩ := Option.bind_eq_some_iff.mp h
    rcases List.mem_cons.mp ha with rfl | ha
    · exact ⟨b, hb⟩
    · exact ih hbs a ha

/-- A quoted character is in no identifier: the `&` or the `#` begins a pair. -/
theorem parseMac_of_quote {a r : List UInt8} (hlen : (a ++ 38 :: 35 :: r).length = 12) :
    parseMac (a ++ 38 :: 35 :: r) = none := by
  rw [List.length_append, List.length_cons, List.length_cons] at hlen
  have hpair : ∃ i < 6, ∃ c t, (a ++ 38 :: 35 :: r).drop (2 * i) = c :: t ∧ (c = 38 ∨ c = 35) := by
    rcases Nat.even_or_odd' a.length with ⟨i, hi | hi⟩
    · refine ⟨i, by omega, 38, 35 :: r, ?_, .inl rfl⟩
      rw [← hi, List.drop_left]
    · refine ⟨i + 1, by omega, 35, r, ?_, .inr rfl⟩
      rw [show 2 * (i + 1) = a.length + 1 by omega, List.drop_append]
      simp
  obtain ⟨i, hi, c, t, hdrop, hc⟩ := hpair
  cases hmac : parseMac (a ++ 38 :: 35 :: r) with
  | none => rfl
  | some mac =>
    obtain ⟨b, hb⟩ := mapM_some_mem hmac i (List.mem_range.mpr hi)
    rw [hdrop, scanHex2_of_quote hc] at hb
    cases hb

/-! ### The search -/

section
variable {adj : AdjList} {id : NodeId}

/-- The first node of the map with a property. -/
theorem find?_toList_iff (adj : AdjList) (id : NodeId) (test : NodeId × NDescr → Bool) :
    (adj.toList.find? test).map Prod.fst = some id ↔
      ∃ nd, adj[id]? = some nd ∧ test (id, nd) = true ∧
        ∀ (u : NodeId) (m : NDescr), adj[u]? = some m → test (u, m) = true → id ≤ u := by
  rw [Option.map_eq_some_iff]
  have hsorted := ExtTreeMap.ordered_keys_toList (t := adj)
  constructor
  · -- The first entry that is found passes the test, and those in front of it do not.
    rintro ⟨⟨v, nd⟩, hfind, rfl⟩
    obtain ⟨htest, as, bs, hlist, hnone⟩ := List.find?_eq_some_iff_append.mp hfind
    have hmem : (v, nd) ∈ adj.toList := List.mem_of_find?_eq_some hfind
    refine ⟨nd, ExtTreeMap.mem_toList_iff_getElem?_eq_some.mp hmem, htest, fun u m hu hm => ?_⟩
    have hum := ExtTreeMap.mem_toList_iff_getElem?_eq_some.mpr hu
    rw [hlist] at hum hsorted
    rcases List.mem_append.mp hum with hum | hum
    · have := hnone _ hum
      rw [hm] at this
      cases this
    · rcases List.mem_cons.mp hum with heq | hum
      · rw [(Prod.mk.inj heq).1]
      · -- the nodes behind the first one have larger identifiers
        have hlt := (List.pairwise_cons.mp (List.pairwise_append.mp hsorted).2.1).1 _ hum
        exact (compare_lt_iff_lt.mp hlt).le
  · -- The smallest identifier that passes is found first.
    rintro ⟨nd, hnd, htest, hmin⟩
    have hmem := ExtTreeMap.mem_toList_iff_getElem?_eq_some.mpr hnd
    cases hfind : adj.toList.find? test with
    | none => exact absurd htest (List.find?_eq_none.mp hfind _ hmem)
    -- An entry with a smaller one cannot pass, nor can one with a larger one come first.
    | some e =>
      obtain ⟨htest', as, bs, hlist, hnone⟩ := List.find?_eq_some_iff_append.mp hfind
      refine ⟨e, rfl, ?_⟩
      have hle : id ≤ e.1 := hmin e.1 e.2
        (ExtTreeMap.mem_toList_iff_getElem?_eq_some.mp (List.mem_of_find?_eq_some hfind)) htest'
      rw [hlist] at hmem hsorted
      rcases List.mem_append.mp hmem with hmem | hmem
      · have := hnone _ hmem
        rw [htest] at this
        cases this
      · rcases List.mem_cons.mp hmem with heq | hmem
        · rw [← heq]
        · have hlt := (List.pairwise_cons.mp (List.pairwise_append.mp hsorted).2.1).1 _ hmem
          exact absurd hle (not_le.mpr (compare_lt_iff_lt.mp hlt))

/-- A node has the name that the string begins with, as far as `strncmp` looks. -/
def Named (name : List UInt8) (nd : NDescr) : Prop := name.take 32 = nd.nodeName.take 32

/-- The string is no number, in either format. -/
structure NoNumber (name : List UInt8) : Prop where
  mac : (if name.length = 12 then parseMac name else none) = none
  number : ∀ v, strtoul name ≠ some (v, [])

/-- A string is resolved by the names of the nodes alone, if one of them has it or the string is
no number. -/
theorem getNodeByName_iff {name : List UInt8}
    (h : (∃ (u : NodeId) (m : NDescr), adj[u]? = some m ∧ Named name m) ∨ NoNumber name) :
    adj.getNodeByName name = some id ↔ ∃ nd, adj[id]? = some nd ∧ Named name nd ∧
      ∀ (u : NodeId) (m : NDescr), adj[u]? = some m → Named name m → id ≤ u := by
  have hfind := find?_toList_iff adj id fun e => strncmpEq name e.2.nodeName 32
  simp only [strncmpEq, decide_eq_true_eq] at hfind
  show _ ↔ ∃ nd, adj[id]? = some nd ∧ name.take 32 = nd.nodeName.take 32 ∧
    ∀ (u : NodeId) (m : NDescr), adj[u]? = some m → name.take 32 = m.nodeName.take 32 → id ≤ u
  rw [← hfind]
  unfold getNodeByName
  simp only [strncmpEq]
  cases hentry : adj.toList.find? fun e => decide (name.take 32 = e.2.nodeName.take 32) with
  -- A node has the name.
  | some e => rw [Option.map_some]
  -- None has it, so the name must not be an address or a number.
  | none =>
    have hnone := List.find?_eq_none.mp hentry
    rcases h with ⟨u, m, hu, hm⟩ | h
    · have := hnone _ (ExtTreeMap.mem_toList_iff_getElem?_eq_some.mpr hu)
      have hm : name.take 32 = m.nodeName.take 32 := hm
      exact absurd (decide_eq_true hm) this
    · rw [h.mac]
      simp only
      split
      · rename_i v hv
        exact absurd hv (h.number v)
      · rw [Option.map_none]

/-! ### The string of a node -/

/-- Another node has the name, or the name is empty. -/
def Ambiguous (adj : AdjList) (id : NodeId) (name : List UInt8) : Prop :=
  name = [] ∨ ∃ (u : NodeId) (m : NDescr), adj[u]? = some m ∧ m.nodeName = name ∧ u ≠ id

/-- The identifier in brackets. -/
def idSuffix (id : NodeId) : List UInt8 :=
  quoted (('[' :: (id.hex ++ [']'])).map fun c => UInt8.ofNat c.toNat)

/-- The identifier in brackets has 14 characters at least. -/
theorem length_idSuffix (id : NodeId) : 14 ≤ (idSuffix id).length := by
  have hhex : id.hex.length = 12 := by
    have harray := NodeId.length_toArray id
    unfold NodeId.hex
    rw [List.length_flatMap]
    simp only [List.map_cons, List.map_nil, List.length_cons, List.length_nil]
    rw [List.map_const', List.sum_replicate, harray]
    rfl
  refine le_trans ?_ (length_le_flatMap quoteBytes_ne_nil _)
  rw [List.length_map, List.length_cons, List.length_append, hhex]
  exact Nat.le_refl 14

/-- The closing bracket is one of them. -/
theorem bracket_mem_idSuffix (id : NodeId) : 93 ∈ idSuffix id := by
  refine List.mem_flatMap.mpr ⟨93, ?_, by decide⟩
  exact List.mem_map.mpr ⟨']', by simp, rfl⟩

/-- The test of `getNameOfNode` is whether the name is ambiguous. -/
theorem ambiguous_iff (adj : AdjList) (id : NodeId) (name : List UInt8) :
    (name.isEmpty || adj.toList.any fun e => decide (e.2.nodeName = name) && decide (e.1 ≠ id)) =
      true ↔ Ambiguous adj id name := by
  rw [Bool.or_eq_true, List.isEmpty_iff, List.any_eq_true]
  refine or_congr Iff.rfl ⟨?_, ?_⟩
  · rintro ⟨⟨u, m⟩, hmem, htest⟩
    rw [Bool.and_eq_true, decide_eq_true_eq, decide_eq_true_eq] at htest
    exact ⟨u, m, ExtTreeMap.mem_toList_iff_getElem?_eq_some.mp hmem, htest⟩
  · rintro ⟨u, m, hu, hm, hne⟩
    refine ⟨(u, m), ExtTreeMap.mem_toList_iff_getElem?_eq_some.mpr hu, ?_⟩
    rw [Bool.and_eq_true, decide_eq_true_eq, decide_eq_true_eq]
    exact ⟨hm, hne⟩

/-- The characters of `getNameOfNode`: the quoted name, and the suffix of an ambiguous one. -/
theorem cStr_getNameOfNode {nd : NDescr} (hid : adj[id]? = some nd) :
    Ambiguous adj id nd.nodeName ∧
      cStr (adj.getNameOfNode id) = quoted nd.nodeName ++ idSuffix id ∨
    ¬ Ambiguous adj id nd.nodeName ∧ cStr (adj.getNameOfNode id) = quoted nd.nodeName := by
  unfold cStr getNameOfNode
  simp only [hid, String.toList_ofList, List.map_append, List.map_flatMap]
  by_cases hamb : Ambiguous adj id nd.nodeName
  · refine .inl ⟨hamb, ?_⟩
    rw [if_pos ((ambiguous_iff adj id _).mpr hamb)]
    unfold idSuffix quoted
    rw [List.flatMap_map]
    rfl
  · refine .inr ⟨hamb, ?_⟩
    rw [if_neg fun h => hamb ((ambiguous_iff adj id _).mp h), List.flatMap_nil, List.append_nil]
    rfl

/-- The string of a node is no number, unless it is the name as it stands. -/
theorem no_number {nd : NDescr} (hid : adj[id]? = some nd) :
    (∀ c ∈ nd.nodeName, isPlain c = true) ∧ cStr (adj.getNameOfNode id) = nd.nodeName ∨
      NoNumber (cStr (adj.getNameOfNode id)) := by
  rcases cStr_getNameOfNode hid with ⟨-, hstr⟩ | ⟨-, hstr⟩
  · -- the suffix is too long for an identifier, and a number has no brackets
    refine .inr ⟨?_, fun v hv => ?_⟩
    · have hlen := length_idSuffix id
      rw [hstr, List.length_append, if_neg (by omega)]
    · have hmem : 93 ∈ cStr (adj.getNameOfNode id) := by
        rw [hstr]
        exact List.mem_append_right _ (bracket_mem_idSuffix id)
      exact absurd (isNumeric_of_strtoul hv 93 hmem) (by decide)
  · -- Without a suffix the quoted name alone decides.
    rcases plain_or_split nd.nodeName with hall | ⟨a, c, r, hname, ha, hc⟩
    · refine .inl ⟨hall, ?_⟩
      rw [hstr]
      exact flatMap_eq_self fun c hc => quoteBytes_of_plain (hall c hc)
    · -- there is a quoted character, which neither format accepts
      obtain ⟨rest, hquote, -⟩ := quoteBytes_of_special hc
      have hsplit : cStr (adj.getNameOfNode id) = a ++ 38 :: 35 :: (rest ++ quoted r) := by
        rw [hstr, hname]
        unfold quoted
        rw [List.flatMap_append, List.flatMap_cons, hquote,
          flatMap_eq_self fun d hd => quoteBytes_of_plain (ha d hd)]
        rfl
      refine .inr ⟨?_, fun v hv => ?_⟩
      · split
        · rename_i hlen
          rw [hsplit] at hlen ⊢
          exact parseMac_of_quote hlen
        · rfl
      · have hmem : 38 ∈ cStr (adj.getNameOfNode id) := by
          rw [hsplit]
          exact List.mem_append_right _ List.mem_cons_self
        exact absurd (isNumeric_of_strtoul hv 38 hmem) (by decide)

/-! ### The names that lead back -/

/-- A name that is its own quoted form is plain. -/
theorem plain_of_quoted {name : List UInt8} (h : (quoted name).length = name.length) :
    ∀ c ∈ name, isPlain c = true := by
  rcases plain_or_split name with hall | ⟨a, c, r, rfl, -, hc⟩
  · exact hall
  · -- a quoted character makes the name longer
    obtain ⟨rest, hquote, -⟩ := quoteBytes_of_special hc
    have ha := length_le_flatMap quoteBytes_ne_nil a
    have hr := length_le_flatMap quoteBytes_ne_nil r
    unfold quoted at h
    rw [List.flatMap_append, List.flatMap_cons, hquote, List.length_append, List.length_append,
      List.length_append, List.length_cons, List.length_cons, List.length_cons] at h
    omega

/-- The first 32 characters of a string that begins with the quoted form of a name are the name
only if the name has as many and echoes, or if nothing is quoted and nothing follows. -/
theorem take_quoted_iff {name : List UInt8} (suffix : List UInt8) (hlen : name.length ≤ 32) :
    (quoted name ++ suffix).take 32 = name ↔
      name.length = 32 ∧ BeginsQuoted name ∨
        name.length < 32 ∧ suffix = [] ∧ ∀ c ∈ name, isPlain c = true := by
  have hquoted : name.length ≤ (quoted name).length := length_le_flatMap quoteBytes_ne_nil name
  rw [← echoes_quote_iff hlen]
  -- A name of 32 characters is compared with the quoted one only.
  by_cases h32 : name.length = 32
  · have hfirst : (quoted name ++ suffix).take 32 = (quoted name).take name.length := by
      rw [h32, List.take_append_of_le_length (by omega)]
    rw [hfirst]
    constructor
    · exact fun h => .inl ⟨h32, h⟩
    · rintro (⟨-, h⟩ | ⟨hlt, -⟩)
      · exact h
      · omega
  · -- A shorter one must be the whole of what was quoted, suffix and all.
    constructor
    · intro h
      have hl := congrArg List.length h
      rw [List.length_take, List.length_append] at hl
      have hsuffix : suffix = [] := List.eq_nil_of_length_eq_zero (by omega)
      exact .inr ⟨by omega, hsuffix, plain_of_quoted (by omega)⟩
    · rintro (⟨h, -⟩ | ⟨hlt, rfl, hall⟩)
      · exact absurd h h32
      · rw [List.append_nil, quoted, flatMap_eq_self fun c hc => quoteBytes_of_plain (hall c hc),
          List.take_of_length_le hlen]

/-- The string of the node leads back to it. Its name is plain, not empty and not shared; or it
has full length, begins like its quoted form, and no node in front has it. -/
def Identified (adj : AdjList) (id : NodeId) (name : List UInt8) : Prop :=
  ((∀ c ∈ name, isPlain c = true) ∧ ¬ Ambiguous adj id name) ∨
    (name.length = 32 ∧ BeginsQuoted name ∧
      ∀ (u : NodeId) (m : NDescr), adj[u]? = some m → m.nodeName = name → id ≤ u)

/-- The node has the name that its string begins with. -/
theorem named_getNameOfNode_iff {nd : NDescr} (hid : adj[id]? = some nd)
    (hlen : nd.nodeName.length ≤ 32) :
    Named (cStr (adj.getNameOfNode id)) nd ↔
      nd.nodeName.length = 32 ∧ BeginsQuoted nd.nodeName ∨
        nd.nodeName.length < 32 ∧ ¬ Ambiguous adj id nd.nodeName ∧
          ∀ c ∈ nd.nodeName, isPlain c = true := by
  unfold Named
  rw [List.take_of_length_le hlen]
  rcases cStr_getNameOfNode hid with ⟨hamb, hstr⟩ | ⟨hamb, hstr⟩
  · have hne : idSuffix id ≠ [] := List.ne_nil_of_mem (bracket_mem_idSuffix id)
    rw [hstr, take_quoted_iff _ hlen]
    simp only [hne, false_and, and_false, hamb, not_true]
  · have htake := take_quoted_iff [] hlen
    rw [List.append_nil] at htake
    rw [hstr, htake]
    simp only [true_and, hamb, not_false_eq_true]

/-- The string of a node is resolved to the node exactly when it is identified by its name. -/
theorem resolves_iff {nd : NDescr} (hfit : NamesFit adj) (hid : adj[id]? = some nd) :
    adj.getNodeByName (cStr (adj.getNameOfNode id)) = some id ↔
      Identified adj id nd.nodeName := by
  have hlen := hfit id nd hid
  have hnamed := named_getNameOfNode_iff hid hlen
  -- the nodes that a string is the name of have the name of the node, if it has it
  have hsame : Named (cStr (adj.getNameOfNode id)) nd → ∀ (u : NodeId) (m : NDescr),
      adj[u]? = some m → (Named (cStr (adj.getNameOfNode id)) m ↔ m.nodeName = nd.nodeName) := by
    intro hn u m hu
    unfold Named at hn ⊢
    rw [hn, List.take_of_length_le hlen, List.take_of_length_le (hfit u m hu), eq_comm]
  constructor
  · intro h
    have hcases : (∃ (u : NodeId) (m : NDescr), adj[u]? = some m ∧
        Named (cStr (adj.getNameOfNode id)) m) ∨ NoNumber (cStr (adj.getNameOfNode id)) := by
      rcases no_number hid with ⟨-, hraw⟩ | hno
      · exact .inl ⟨id, nd, hid, by rw [hraw, Named]⟩
      · exact .inr hno
    obtain ⟨n, hn, hmatch, hmin⟩ := (getNodeByName_iff hcases).mp h
    obtain rfl : n = nd := Option.some.inj (hn.symm.trans hid)
    rcases hnamed.mp hmatch with ⟨h32, hecho⟩ | ⟨-, hamb, hall⟩
    · exact .inr ⟨h32, hecho, fun u m hu hm => hmin u m hu ((hsame hmatch u m hu).mpr hm)⟩
    · exact .inl ⟨hall, hamb⟩
  · intro h
    have hmatch : Named (cStr (adj.getNameOfNode id)) nd := by
      refine hnamed.mpr ?_
      rcases h with ⟨hall, hamb⟩ | ⟨h32, hecho, -⟩
      · by_cases h32 : nd.nodeName.length = 32
        · exact .inl ⟨h32, nd.nodeName, 0, (List.append_nil _).symm, hall⟩
        · exact .inr ⟨by omega, hamb, hall⟩
      · exact .inl ⟨h32, hecho⟩
    refine (getNodeByName_iff (.inl ⟨id, nd, hid, hmatch⟩)).mpr
      ⟨nd, hid, hmatch, fun u m hu hm => ?_⟩
    have hname := (hsame hmatch u m hu).mp hm
    rcases h with ⟨-, hamb⟩ | ⟨-, -, hmin⟩
    · -- no other node has the name
      by_contra hlt
      exact hamb (.inr ⟨u, m, hu, hname, fun heq => hlt heq.ge⟩)
    · exact hmin u m hu hname

/-- The string of a node leads back to the node exactly when the node is identified by its name,
and nodes that are have different strings. -/
theorem names_identify_iff (hfit : NamesFit adj) :
    (∀ (u : NodeId) (n : NDescr), adj[u]? = some n →
      (adj.getNodeByName (cStr (adj.getNameOfNode u)) = some u ↔ Identified adj u n.nodeName)) ∧
    ∀ (u v : NodeId) (n m : NDescr), adj[u]? = some n → adj[v]? = some m → u ≠ v →
      Identified adj u n.nodeName → Identified adj v m.nodeName →
        adj.getNameOfNode u ≠ adj.getNameOfNode v := by
  refine ⟨fun u n hu => resolves_iff hfit hu, fun u v n m hu hv hne hn hm heq => hne ?_⟩
  have hback := (resolves_iff hfit hu).mpr hn
  rw [heq, (resolves_iff hfit hv).mpr hm] at hback
  exact (Option.some.inj hback).symm

end

/-! ### Three stations -/

/-- A topo packet that announces a name, and no links. -/
def namedTopo (src : NodeId) (name : List UInt8) : BasePacket :=
  let p := topoOf src 5000 []
  { p.write (p.size - 1) (UInt8.ofNat name.length :: name) with size := p.size + name.length }

/-- The stations 1, 2 and 3 announce their names. -/
def namesRun (name1 name2 name3 : List UInt8) : List Event :=
  [⟨0, .feed (namedTopo 1 name1)⟩, ⟨0, .feed (namedTopo 2 name2)⟩, ⟨0, .feed (namedTopo 3 name3)⟩]

/-- The names `ab`, `a.b` and `c` identify their nodes. -/
theorem names_identify_namesRun :
    ∃ s n, Reachable (.hopCount 1) (fun _ _ => True) s ∧ s.adjList[(2 : NodeId)]? = some n ∧
      n.nodeName = [97, 46, 98] ∧
      s.adjList.getNodeByName (cStr (s.adjList.getNameOfNode 2)) = some 2 := by
  -- The run is computed, and the node keeps its dot.
  obtain ⟨s, hs, htest⟩ := exists_of_test
    ((namesRun [97, 98] [97, 46, 98] [99]).foldlM (exec (.hopCount 1)) (init (.hopCount 1) 0))
    (fun s => s.adjList[(2 : NodeId)]?.any fun (n : NDescr) =>
      decide (n.nodeName = [97, 46, 98]) && !(n.nodeName.isEmpty ||
        s.adjList.toList.any fun e => decide (e.2.nodeName = n.nodeName) && decide (e.1 ≠ 2)))
    (by decide +kernel)
  have hreach : Reachable (.hopCount 1) (fun _ _ => True) s :=
    ⟨0, steps_of_events _ _ s (fun _ _ _ => trivial) hs⟩
  cases hn : s.adjList[(2 : NodeId)]? with
  | none => simp [hn] at htest
  | some n =>
    simp only [hn, Option.any_some, Bool.and_eq_true, decide_eq_true_eq,
      Bool.not_eq_true'] at htest
    obtain ⟨hname, halone⟩ := htest
    -- No other node has the same name.
    have hamb : ¬ Ambiguous s.adjList 2 n.nodeName := by
      rw [← ambiguous_iff, halone]
      exact Bool.false_ne_true
    have hplain : ∀ c ∈ n.nodeName, isPlain c = true := by
      rw [hname]
      decide +kernel
    exact ⟨s, n, hreach, hn, hname,
      ((names_identify_iff (namesFit_of_reachable hreach)).1 2 n hn).mpr (.inl ⟨hplain, hamb⟩)⟩

/-- Station 3 announces what the string of station 2 is, which shares its name with station 1.
Both get the same string, and it leads to station 3. The string of station 1 leads nowhere. -/
theorem names_imitate_namesRun :
    ∃ s, Reachable (.hopCount 1) (fun _ _ => True) s ∧
      s.adjList.getNameOfNode 2 = s.adjList.getNameOfNode 3 ∧
      s.adjList.getNodeByName (cStr (s.adjList.getNameOfNode 2)) = some 3 ∧
      s.adjList.getNodeByName (cStr (s.adjList.getNameOfNode 1)) = none := by
  obtain ⟨s, hs, htest⟩ := exists_of_test
    ((namesRun [97, 98] [97, 98] (97 :: 98 :: idSuffix 2)).foldlM (exec (.hopCount 1))
      (init (.hopCount 1) 0))
    (fun s => decide (s.adjList.getNameOfNode 2 = s.adjList.getNameOfNode 3 ∧
      s.adjList.getNodeByName (cStr (s.adjList.getNameOfNode 2)) = some 3 ∧
      s.adjList.getNodeByName (cStr (s.adjList.getNameOfNode 1)) = none)) (by decide +kernel)
  exact ⟨s, ⟨0, steps_of_events _ _ s (fun _ _ _ => trivial) hs⟩, of_decide_eq_true htest⟩

end Awds.Proofs
