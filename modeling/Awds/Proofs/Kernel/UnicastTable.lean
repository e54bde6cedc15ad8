import Awds.Kernel.UnicastTable
import Awds.Proofs.Kernel.BufferUse

/-!
# `Awds.Proofs.Kernel.UnicastTable`: the list of unicast destinations

`awds_check_unicast_table` looks an address up, removes entries that are too old, and inserts a
new one, in one pass over a doubly linked list. `check_refines` connects the list in memory with
the list of entries that the packet handler of `Awds.Kernel.Packets` uses: the loop takes entries
out (`HoldsList.remove`), and what is left is what `UcDestTable.scan` leaves (`checkLoop_run`).

The loop does not change `sk->table`, also not when it frees the first entry. `KeepsHead` is the
condition on a call that it does not, and `unicast_table_run` has the result for runs of such
calls: the list is well formed, and the answers fit to the calls before (`TableInv`).
`unicast_table_freed` has two runs with a call that frees the first entry.
-/

set_option autoImplicit false

namespace Awds.Proofs

open Awds.Lib Awds.Kernel

/-! ### The list in memory -/

section
variable {s s' : UcDestHeap} {ps front rest : List Nat} {es fs rs : List UcDest} {p q : Nat}
  {x : AwdsUcDestTable}

/-- The address, mac and time of an entry. -/
def readEntry (s : UcDestHeap) (p : Nat) : Option UcDest :=
  (s.heap p).map AwdsUcDestTable.toUcDest

/-- The entries at the addresses `ps` form a list with the contents `es`. -/
structure HoldsList (s : UcDestHeap) (ps : List Nat) (es : List UcDest) : Prop where
  chain : Chain AwdsUcDestTable.next AwdsUcDestTable.prev s.heap none ps.head? ps
  nodup : ps.Nodup
  used : ∀ p ∈ ps, p < s.nextPtr
  contents : ps.map (readEntry s) = es.map some

/-- There are as many addresses as entries. -/
theorem HoldsList.length_eq (h : HoldsList s ps es) : ps.length = es.length := by
  simpa using congrArg List.length h.contents

/-- The entry in the middle. -/
theorem HoldsList.mid {e : UcDest} (h : HoldsList s (front ++ p :: rest) (fs ++ e :: rs))
    (hlen : front.length = fs.length) : ∃ x, s.heap p = some x ∧ x.toUcDest = e ∧
      x.prev = front.getLast? ∧ x.next = rest.head? := by
  obtain ⟨x, hx, hprev, hnext⟩ := h.chain.mid
  refine ⟨x, hx, ?_, by simpa using hprev, hnext⟩
  have hcontents := h.contents
  rw [List.map_append, List.map_append, List.map_cons, List.map_cons] at hcontents
  have hrest := (List.append_inj hcontents (by simpa using hlen)).2
  have hp : readEntry s p = some e := (List.cons.inj hrest).1
  simpa [readEntry, hx] using hp

/-- An address in use can be read. -/
theorem entry_run (hx : s.heap p = some x) : s.entry p = .ok x := by
  simp [UcDestHeap.entry, hx]

/-- The search for the first entry ends at an entry without a predecessor. -/
theorem findFirst_run (hx : s.heap p = some x) (hprev : x.prev = none) (n : Nat) :
    UcDestHeap.findFirst (n + 1) s p = .ok p := by
  rw [UcDestHeap.findFirst, entry_run hx, except_bind_ok, hprev]

/-- A write to the links of an entry. -/
def relink (heap : Nat → Option AwdsUcDestTable) (at? : Option Nat)
    (f : AwdsUcDestTable → AwdsUcDestTable) (r : Nat) : Option AwdsUcDestTable :=
  if at? = some r then (heap r).map f else heap r

/-- Where there is no neighbour nothing is written. -/
theorem relink_none (heap : Nat → Option AwdsUcDestTable)
    (f : AwdsUcDestTable → AwdsUcDestTable) : relink heap none f = heap := by
  funext r
  simp [relink]

/-- A write to a neighbour that is there is an update of the memory. -/
theorem relink_some {heap : Nat → Option AwdsUcDestTable} (h : heap q = some x)
    (f : AwdsUcDestTable → AwdsUcDestTable) :
    relink heap (some q) f = Function.update heap q (some (f x)) := by
  funext r
  by_cases hr : r = q
  · subst hr
    simp [relink, h]
  · simp [relink, hr, Ne.symm hr]

/-- The predecessor of the removed entry gets its successor, if there is a predecessor. -/
theorem unlinkPrev_run (hp : s.heap p = some x)
    (hq : ∀ q, x.prev = some q → ∃ f, s.heap q = some f) :
    s.unlinkPrev p = .ok { s with
      heap := relink s.heap x.prev fun f => { f with next := x.next } } := by
  unfold UcDestHeap.unlinkPrev UcDestHeap.entry
  rw [hp, except_bind_ok]
  cases hprev : x.prev with
  | none => simp only [relink_none]
  | some q =>
    obtain ⟨f, hf⟩ := hq q hprev
    simp only [hf, except_bind_ok, relink_some hf]
    rfl

/-- The successor of the removed entry gets its predecessor, if there is a successor. -/
theorem unlinkNext_run (hp : s.heap p = some x)
    (hq : ∀ q, x.next = some q → ∃ f, s.heap q = some f) :
    s.unlinkNext p = .ok { s with
      heap := relink s.heap x.next fun f => { f with prev := x.prev } } := by
  unfold UcDestHeap.unlinkNext UcDestHeap.entry
  rw [hp, except_bind_ok]
  cases hnext : x.next with
  | none => simp only [relink_none]
  | some q =>
    obtain ⟨f, hf⟩ := hq q hnext
    simp only [hf, except_bind_ok, relink_some hf]
    rfl

/-- The memory behind the removal of the entry `x` at `p`. -/
def unlinked (heap : Nat → Option AwdsUcDestTable) (p : Nat) (x : AwdsUcDestTable) :
    Nat → Option AwdsUcDestTable :=
  Function.update (relink (relink heap x.prev fun f => { f with next := x.next }) x.next
    fun f => { f with prev := x.prev }) p none

/-- The entries next to the removed one, and the others. -/
structure Apart (front rest : List Nat) (p : Nat) : Prop where
  notFront : p ∉ front
  notRest : p ∉ rest
  disjoint : ∀ q ∈ front, q ∉ rest

/-- In a list without repetitions the removed entry and the parts on both sides of it are apart. -/
theorem apart_of_nodup (h : (front ++ p :: rest).Nodup) : Apart front rest p := by
  rw [List.nodup_append, List.nodup_cons] at h
  obtain ⟨-, ⟨hrest, -⟩, hne⟩ := h
  refine ⟨fun hp => hne p hp p List.mem_cons_self rfl, hrest, fun q hq hq' => ?_⟩
  exact hne q hq q (List.mem_cons_of_mem p hq') rfl

variable {heap : Nat → Option AwdsUcDestTable}

/-- The entry in front of the removed one points to the rest now. -/
theorem unlinked_pred (h : Apart front rest p) (hprev : x.prev = front.getLast?)
    (hnext : x.next = rest.head?) (hq : front.getLast? = some q) :
    unlinked heap p x q = (heap q).map fun f => { f with next := rest.head? } := by
  have hmem : q ∈ front := List.mem_of_getLast? hq
  have hp : q ≠ p := fun heq => h.notFront (heq ▸ hmem)
  have hhead : rest.head? ≠ some q := fun heq => h.disjoint q hmem (List.mem_of_head? heq)
  simp [unlinked, relink, hprev, hnext, hq, hp, hhead]

/-- The first entry of the rest points to the part in front now. -/
theorem unlinked_succ (h : Apart front rest p) (hprev : x.prev = front.getLast?)
    (hnext : x.next = rest.head?) (hq : rest.head? = some q) :
    unlinked heap p x q = (heap q).map fun f => { f with prev := front.getLast? } := by
  have hmem : q ∈ rest := List.mem_of_head? hq
  have hp : q ≠ p := fun heq => h.notRest (heq ▸ hmem)
  have hlast : front.getLast? ≠ some q := fun heq => h.disjoint q (List.mem_of_getLast? heq) hmem
  simp [unlinked, relink, hprev, hnext, hq, hp, hlast]

/-- All other entries are as before. -/
theorem unlinked_other (hprev : x.prev = front.getLast?) (hnext : x.next = rest.head?)
    (hp : q ≠ p) (hlast : front.getLast? ≠ some q) (hhead : rest.head? ≠ some q) :
    unlinked heap p x q = heap q := by
  simp [unlinked, relink, hprev, hnext, hp, hlast, hhead]

/-- What an entry says does not change. -/
theorem unlinked_contents (hp : q ≠ p) :
    (unlinked heap p x q).map AwdsUcDestTable.toUcDest =
      (heap q).map AwdsUcDestTable.toUcDest := by
  unfold unlinked relink
  rw [Function.update_of_ne hp]
  cases heap q with
  | none => split_ifs <;> rfl
  | some f => split_ifs <;> rfl

/-- `remove` succeeds in memory in which the neighbours of the entry are in use, and it returns the
successor. -/
theorem remove_run (h : Apart front rest p) (hx : s.heap p = some x)
    (hprev : x.prev = front.getLast?) (hnext : x.next = rest.head?)
    (hlive : ∀ q ∈ front ++ rest, ∃ f, s.heap q = some f) :
    s.remove p = .ok ({ s with heap := unlinked s.heap p x }, rest.head?) := by
  have hpred : x.prev ≠ some p := by
    rw [hprev]
    exact fun heq => h.notFront (List.mem_of_getLast? heq)
  have hsucc : x.next ≠ some p := by
    rw [hnext]
    exact fun heq => h.notRest (List.mem_of_head? heq)
  have hlive' : ∀ q f g, (front.getLast? = some q ∨ rest.head? = some q) →
      ∃ o, relink s.heap f g q = some o := by
    intro q f g hq
    obtain ⟨o, ho⟩ := hlive q (by
      rcases hq with hq | hq
      · exact List.mem_append_left _ (List.mem_of_getLast? hq)
      · exact List.mem_append_right _ (List.mem_of_head? hq))
    unfold relink
    split
    · exact ⟨g o, by rw [ho]; rfl⟩
    · exact ⟨o, ho⟩
  have hfirst := unlinkPrev_run hx fun q hq => by
    simpa [relink_none] using hlive' q none id (.inl (hprev ▸ hq))
  have hsecond := unlinkNext_run (s := { s with
      heap := relink s.heap x.prev fun f => { f with next := x.next } }) (p := p) (x := x)
    (by simp [relink, hpred, hx]) fun q hq => hlive' q _ _ (.inr (hnext ▸ hq))
  unfold UcDestHeap.remove
  rw [hfirst, except_bind_ok, hsecond, except_bind_ok]
  -- The removed entry has not changed.
  have hentry : ∀ h', h' p = some x → UcDestHeap.entry { s with heap := h' } p = .ok x := by
    intro h' hx'
    simp [UcDestHeap.entry, hx']
  rw [hentry _ (by simp [relink, hpred, hsucc, hx]), except_bind_ok, ← hnext]
  rfl

/-- The removal of an entry in the middle of a list leaves the list of the others. It keeps
`sk->table`, which points to freed memory then if the entry was the first one. -/
theorem HoldsList.remove {e : UcDest} (h : HoldsList s (front ++ p :: rest) (fs ++ e :: rs))
    (hlen : front.length = fs.length) :
    ∃ s', s.remove p = .ok (s', rest.head?) ∧ HoldsList s' (front ++ rest) (fs ++ rs) ∧
      s'.table = s.table ∧ s'.nextPtr = s.nextPtr ∧ s'.heap p = none ∧
      ∀ q, s.heap q = none → s'.heap q = none := by
  obtain ⟨x, hx, rfl, hprev, hnext⟩ := h.mid hlen
  have hapart := apart_of_nodup h.nodup
  -- The neighbours of the entry are alive, so rewiring them does not fail.
  have hlive : ∀ q ∈ front ++ rest, ∃ f, s.heap q = some f := by
    intro q hq
    refine h.chain.live ?_
    rcases List.mem_append.mp hq with hq | hq
    · exact List.mem_append_left _ hq
    · exact List.mem_append_right _ (List.mem_cons_of_mem p hq)
  have hne : ∀ q ∈ front ++ rest, q ≠ p := by
    rintro q hq rfl
    rcases List.mem_append.mp hq with hq | hq
    · exact hapart.notFront hq
    · exact hapart.notRest hq
  refine ⟨{ s with heap := unlinked s.heap p x }, remove_run hapart hx hprev hnext hlive,
    ⟨?_, ?_, ?_, ?_⟩, rfl, rfl, ?_, ?_⟩
  · -- The predecessor and the successor are rewired, and every other entry stays.
    refine h.chain.remove h.nodup ?_ ?_ ?_
    · -- The entry in front now points behind the removed one.
      intro q o hq ho
      refine ⟨{ o with next := rest.head? }, ?_, rfl, rfl⟩
      show unlinked s.heap p x q = _
      rw [unlinked_pred hapart hprev hnext hq, ho]
      rfl
    · -- The entry behind it points to the front.
      intro q o hq ho
      refine ⟨{ o with prev := front.getLast? }, ?_, rfl, by simp⟩
      show unlinked s.heap p x q = _
      rw [unlinked_succ hapart hprev hnext hq, ho]
      rfl
    · -- All others keep both links.
      exact fun q hq hlast hhead => unlinked_other hprev hnext (hne q hq) hlast hhead
  · exact h.nodup.sublist (List.Sublist.append_left (List.sublist_cons_self p rest) front)
  · intro q hq
    refine h.used q ?_
    rcases List.mem_append.mp hq with hq | hq
    · exact List.mem_append_left _ hq
    · exact List.mem_append_right _ (List.mem_cons_of_mem p hq)
  · -- None of these writes touches what an entry says.
    have hsame : (front ++ rest).map (readEntry { s with heap := unlinked s.heap p x }) =
        (front ++ rest).map (readEntry s) :=
      List.map_congr_left fun q hq => unlinked_contents (hne q hq)
    have hcontents := h.contents
    rw [hsame]
    simp only [List.map_append, List.map_cons] at hcontents ⊢
    obtain ⟨hfront, hrest⟩ := List.append_inj hcontents (by simpa using hlen)
    rw [hfront, (List.cons.inj hrest).2]
  · exact Function.update_self _ _ _
  · -- What was free stays free.
    intro q hq
    show unlinked s.heap p x q = none
    unfold unlinked relink
    by_cases hqp : q = p
    · rw [hqp, Function.update_self]
    · rw [Function.update_of_ne hqp, hq]
      split_ifs <;> rfl

variable {mac : List UInt8}

/-- The loop removes the entries that are too old, up to the address. The entries in front of
the one it looks at have been kept. -/
theorem checkLoop_run (now : Int) (mac : List UInt8) {n : Nat}
    (h : HoldsList s (front ++ rest) (fs ++ rs)) (hlen : front.length = fs.length)
    (hn : rest.length < n) :
    ∃ s' kept tail, UcDestHeap.checkLoop now mac n s rest.head? = .ok (s', tail.head?) ∧
      HoldsList s' (front ++ kept ++ tail)
        (fs ++ (UcDestTable.scan now mac rs).1 ++ (UcDestTable.scan now mac rs).2) ∧
      kept.length = (UcDestTable.scan now mac rs).1.length ∧
      s'.table = s.table ∧ s'.nextPtr = s.nextPtr ∧ (∀ q, s.heap q = none → s'.heap q = none) ∧
      ∀ p, rest.head? = some p →
        if UcDestTable.freesHead now mac rs then s'.heap p = none
        else (kept ++ tail).head? = some p := by
  -- The induction is on the entries that are left.
  induction rest generalizing n s front fs rs with
  | nil =>
    have hrs : rs = [] := by
      have hall := h.length_eq
      rw [← List.length_eq_zero_iff]
      simp only [List.length_append, List.length_nil] at hall
      omega
    subst hrs
    cases n with
    | zero => cases hn
    | succ n =>
      refine ⟨s, [], [], rfl, ?_, rfl, rfl, rfl, fun _ hq => hq, fun p hp => by cases hp⟩
      simpa [UcDestTable.scan] using h
  | cons p rest ih =>
    obtain ⟨e, rs, rfl⟩ : ∃ e rs', rs = e :: rs' := by
      cases rs with
      | nil =>
        have hall := h.length_eq
        simp only [List.length_append, List.length_cons, List.length_nil] at hall
        omega
      | cons e rs => exact ⟨e, rs, rfl⟩
    cases n with
    | zero => cases hn
    | succ n =>
      have hn' : rest.length < n := Nat.lt_of_succ_lt_succ hn
      obtain ⟨x, hx, rfl, -, hnext⟩ := h.mid hlen
      rw [List.head?_cons, UcDestHeap.checkLoop, entry_run hx, except_bind_ok, UcDestTable.scan]
      by_cases hmac : x.mac = mac
      · -- The loop ends at the address.
        rw [if_pos hmac, if_pos hmac]
        refine ⟨s, [], p :: rest, rfl, ?_, rfl, rfl, rfl, fun _ hq => hq, fun q hq => ?_⟩
        · simpa using h
        · simpa [UcDestTable.freesHead, hmac] using hq
      rw [if_neg hmac, if_neg hmac]
      by_cases hold : UcDestTable.tooOld now x.toUcDest
      · -- The entry is removed.
        obtain ⟨s1, hremove, h1, htable, hptr, hgone, hfree⟩ := h.remove hlen
        rw [if_pos hold, hremove, except_bind_ok]
        obtain ⟨s', kept, tail, hrun, h', hkept, htable', hptr', hfree', -⟩ := ih h1 hlen hn'
        refine ⟨s', kept, tail, hrun, by simpa [hold] using h', by simpa [hold] using hkept,
          htable'.trans htable, hptr'.trans hptr, fun q hq => hfree' q (hfree q hq), fun q hq => ?_⟩
        cases hq
        simpa [UcDestTable.freesHead, hmac, hold] using hfree' p hgone
      · -- The entry stays in the list, in front of the others.
        rw [if_neg hold, hnext]
        have h1 : HoldsList s ((front ++ [p]) ++ rest) ((fs ++ [x.toUcDest]) ++ rs) := by
          simpa using h
        obtain ⟨s', kept, tail, hrun, h', hkept, htable, hptr, hfree, -⟩ :=
          ih h1 (by simp [hlen]) hn'
        refine ⟨s', p :: kept, tail, hrun, ?_, ?_, htable, hptr, hfree, fun q hq => ?_⟩
        · simpa [hold] using h'
        · simpa [hold] using hkept
        · simpa [UcDestTable.freesHead, hold] using hq

/-- The time of an entry is set. -/
theorem HoldsList.setTime {t : Int} (h : HoldsList s (front ++ p :: rest) (fs ++ x.toUcDest :: rs))
    (hlen : front.length = fs.length) (hx : s.heap p = some x) :
    HoldsList (s.setEntry p { x with time := t }) (front ++ p :: rest)
      (fs ++ { x.toUcDest with time := t } :: rs) := by
  have hapart := apart_of_nodup h.nodup
  -- The links are those of before: only a time is written.
  refine ⟨h.chain.congr_links fun q _ o ho => ?_, h.nodup, h.used, ?_⟩
  · -- Setting the time keeps the links.
    by_cases hq : q = p
    · subst hq
      obtain rfl := Option.some.inj (hx.symm.trans ho)
      exact ⟨{ x with time := t }, Function.update_self _ _ _, rfl, rfl⟩
    · exact ⟨o, (Function.update_of_ne hq _ _).trans ho, rfl, rfl⟩
  · -- Only the entry at `p` reads differently.
    have hother : ∀ q, q ≠ p → readEntry (s.setEntry p { x with time := t }) q = readEntry s q := by
      intro q hq
      simp [readEntry, UcDestHeap.setEntry, hq]
    have hself : readEntry (s.setEntry p { x with time := t }) p =
        some { x.toUcDest with time := t } := by
      simp [readEntry, UcDestHeap.setEntry]
    have hcontents := h.contents
    simp only [List.map_append, List.map_cons] at hcontents ⊢
    obtain ⟨hfront, hrest⟩ := List.append_inj hcontents (by simpa using hlen)
    rw [← hfront, ← (List.cons.inj hrest).2, hself]
    refine congrArg₂ _ (List.map_congr_left fun q hq => hother q ?_)
      (congrArg _ (List.map_congr_left fun q hq => hother q ?_))
    · rintro rfl
      exact hapart.notFront hq
    · rintro rfl
      exact hapart.notRest hq

variable {env : RcvEnv}

/-- A new entry is put in front of the first one. -/
theorem HoldsList.insert (mac : List UInt8) (h : HoldsList s ps es)
    (htable : s.table = ps.head?) (hkmalloc : env.kmallocOk = true) :
    ∃ s', s.awdsInstertUnicastTable env mac = .ok s' ∧
      HoldsList s' (s.nextPtr :: ps) (⟨mac, env.now⟩ :: es) ∧ s'.table = some s.nextPtr := by
  unfold UcDestHeap.awdsInstertUnicastTable
  -- The new entry is at an address that no entry has.
  have hfresh : s.nextPtr ∉ ps := fun hp => Nat.lt_irrefl _ (h.used _ hp)
  have hused : ∀ q ∈ s.nextPtr :: ps, q < s.nextPtr + 1 := by
    intro q hq
    rcases List.mem_cons.mp hq with rfl | hq
    · exact Nat.lt_succ_self _
    · exact Nat.lt_succ_of_lt (h.used q hq)
  have hnodup : (s.nextPtr :: ps).Nodup := List.nodup_cons.mpr ⟨hfresh, h.nodup⟩
  -- The table is empty, or the new entry goes in front of the first one.
  cases ps with
  -- The first entry of an empty list has no links.
  | nil =>
    have hnone : s.table = none := htable
    obtain rfl : es = [] := List.length_eq_zero_iff.mp h.length_eq.symm
    rw [hnone]
    simp only [hkmalloc, Bool.not_true, Bool.false_eq_true, if_false]
    refine ⟨_, rfl, ⟨?_, hnodup, hused, ?_⟩, rfl⟩
    · exact ⟨rfl, _, Function.update_self _ _ _, rfl, rfl⟩
    · simp [readEntry, UcDestHeap.setEntry]
  -- Otherwise the old first entry gets the new one in front of it.
  | cons p ps =>
    have hsome : s.table = some p := htable
    obtain ⟨hfirst, x, hx, hprev, hrest⟩ := h.chain
    rw [hsome]
    simp only [findFirst_run hx hprev, except_bind_ok, entry_run hx, hkmalloc, Bool.not_true,
      Bool.false_eq_true, if_false]
    refine ⟨_, rfl, ⟨?_, hnodup, hused, ?_⟩, rfl⟩
    · -- The old first entry gets the new one as its predecessor.
      have hne : p ≠ s.nextPtr := fun heq => hfresh (heq ▸ List.mem_cons_self)
      refine h.chain.push (l := { x with prev := some s.nextPtr }) ?_ ?_ rfl ?_
        (Function.update_self _ _ _) rfl rfl
      · intro q hq
        have hqp : q ≠ p := fun heq => (List.nodup_cons.mp h.nodup).1 (heq ▸ hq)
        have hqn : q ≠ s.nextPtr := fun heq => hfresh (heq ▸ List.mem_cons_of_mem p hq)
        simp [UcDestHeap.setEntry, hqp, hqn]
      · simp [UcDestHeap.setEntry, hne]
      · intro o ho
        obtain rfl := Option.some.inj (hx.symm.trans ho)
        rfl
    · -- The entries read as before.
      show _ :: List.map _ (p :: ps) = some _ :: es.map some
      rw [← h.contents]
      refine congrArg₂ _ ?_ (List.map_congr_left fun q hq => ?_)
      · simp [readEntry, UcDestHeap.setEntry]
      · -- An old entry has another link at most.
        have hqn : q ≠ s.nextPtr := fun heq => hfresh (heq ▸ hq)
        by_cases hqp : q = p
        · subst hqp
          simp [readEntry, UcDestHeap.setEntry, hqn, hx]
        · simp [readEntry, UcDestHeap.setEntry, hqn, hqp]

/-- Without memory, the list stays as it is. -/
theorem HoldsList.insert_failed (mac : List UInt8) (h : HoldsList s ps es)
    (htable : s.table = ps.head?) (hkmalloc : env.kmallocOk = false) :
    s.awdsInstertUnicastTable env mac = .ok s := by
  unfold UcDestHeap.awdsInstertUnicastTable
  cases ps with
  | nil =>
    have hnone : s.table = none := htable
    simp [hnone, hkmalloc]
  | cons p ps =>
    have hsome : s.table = some p := htable
    obtain ⟨-, x, hx, hprev, -⟩ := h.chain
    have hsame : ({ x with prev := none } : AwdsUcDestTable) = x := by rw [← hprev]
    simp only [hsome, findFirst_run hx hprev, except_bind_ok, entry_run hx, hkmalloc,
      Bool.not_false, if_true, hsame]
    refine congrArg Except.ok ?_
    unfold UcDestHeap.setEntry
    rw [Function.update_eq_self_iff.mpr hx.symm, ← hsome]

variable {t t' : UcDestTable} {skb : SkBuff}

/-- The table in memory has the entries of `t`. `sk->table` points to the first one, or to
memory that was freed. -/
structure Represents (s : UcDestHeap) (t : UcDestTable) : Prop where
  list : ∃ ps, HoldsList s ps t.entries ∧ (t.freed = false → s.table = ps.head?)
  dangling : t.freed = true → ∃ p, s.table = some p ∧ s.heap p = none

/-- A check that starts at freed memory is a use after free. -/
theorem dangling_check {p : Nat} (hlen : awdsHlen + ethAlen ≤ skb.len) (htable : s.table = some p)
    (hfree : s.heap p = none) : s.awdsCheckUnicastTable env skb = .error .useAfterFree := by
  unfold UcDestHeap.awdsCheckUnicastTable
  rw [if_neg (Nat.not_lt.mpr hlen), htable]
  simp only [UcDestHeap.checkLoop, UcDestHeap.entry, hfree]
  rfl

/-- So is an insertion. -/
theorem dangling_insert {p : Nat} (htable : s.table = some p) (hfree : s.heap p = none) :
    s.awdsInstertUnicastTable env mac = .error .useAfterFree := by
  unfold UcDestHeap.awdsInstertUnicastTable
  simp only [htable, UcDestHeap.findFirst, UcDestHeap.entry, hfree]
  rfl

/-- The list is shorter than the number of addresses that were given out, which is the fuel of the
loops. -/
theorem HoldsList.length_lt (h : HoldsList s ps es) : ps.length < s.nextPtr + 1 := by
  have hsub : ps ⊆ List.range s.nextPtr := fun p hp => List.mem_range.mpr (h.used p hp)
  have hle := (h.nodup.subperm hsub).length_le
  rw [List.length_range] at hle
  exact Nat.lt_succ_of_le hle

/-- The loop from the first entry on. If this entry is freed, `sk->table` is not changed. -/
theorem checkLoop_first (now : Int) (mac : List UInt8) (h : HoldsList s ps es)
    (htable : s.table = ps.head?) :
    ∃ s' kept tail, UcDestHeap.checkLoop now mac (s.nextPtr + 1) s s.table =
        .ok (s', tail.head?) ∧
      HoldsList s' (kept ++ tail) ((UcDestTable.scan now mac es).1 ++
        (UcDestTable.scan now mac es).2) ∧
      kept.length = (UcDestTable.scan now mac es).1.length ∧
      (UcDestTable.freesHead now mac es = false → s'.table = (kept ++ tail).head?) ∧
      (UcDestTable.freesHead now mac es = true → ∃ p, s'.table = some p ∧ s'.heap p = none) := by
  have h' : HoldsList s ([] ++ ps) ([] ++ es) := h
  obtain ⟨s', kept, tail, hrun, hlist, hkept, htable', -, -, hhead⟩ :=
    checkLoop_run now mac h' rfl h.length_lt
  rw [htable]
  refine ⟨s', kept, tail, hrun, hlist, hkept, ?_⟩
  rw [htable', htable]
  -- Whether the first entry is freed decides where the pointer of the table leads.
  cases ps with
  | nil =>
    obtain rfl : es = [] := List.length_eq_zero_iff.mp h.length_eq.symm
    have hnil : kept ++ tail = [] := List.length_eq_zero_iff.mp hlist.length_eq
    exact ⟨fun _ => by rw [hnil], fun hfrees => by cases hfrees⟩
  | cons p ps =>
    have hfirst := hhead p rfl
    refine ⟨fun hfrees => ?_, fun hfrees => ⟨p, rfl, ?_⟩⟩
    · rw [hfrees, if_neg Bool.false_ne_true] at hfirst
      exact hfirst.symm
    · rwa [hfrees, if_pos rfl] at hfirst

/-- A call on the list in memory does what the call on the list of entries does. -/
theorem check_refines (env : RcvEnv) (skb : SkBuff) (h : Represents s t) :
    match t.awdsCheckUnicastTable env skb with
    | .error _ => s.awdsCheckUnicastTable env skb = .error .useAfterFree
    | .ok (t', r) =>
      ∃ s', s.awdsCheckUnicastTable env skb = .ok (s', r) ∧ Represents s' t' := by
  by_cases hlen : skb.len < awdsHlen + ethAlen
  · simp only [UcDestTable.awdsCheckUnicastTable, hlen, if_true]
    exact ⟨s, if_pos hlen, h⟩
  cases hfreed : t.freed with
  | true =>
    obtain ⟨p, hp, hgone⟩ := h.dangling hfreed
    simp only [UcDestTable.awdsCheckUnicastTable, hlen, if_false, hfreed, if_true]
    exact dangling_check (Nat.not_lt.mp hlen) hp hgone
  | false =>
    obtain ⟨ps, hlist, htable⟩ := h.list
    obtain ⟨s1, kept, tail, hrun, h1, hkept, hfirst, hgone⟩ :=
      checkLoop_first env.now (frameMac skb) hlist (htable hfreed)
    unfold UcDestTable.awdsCheckUnicastTable UcDestHeap.awdsCheckUnicastTable
    unfold frameMac at hrun h1 hkept hfirst hgone
    simp only [hlen, if_false, hfreed, Bool.false_eq_true, hrun, except_bind_ok]
    generalize UcDestTable.freesHead env.now (skb.data.read awdsHlen ethAlen) t.entries = freed
      at hfirst hgone ⊢
    generalize UcDestTable.scan env.now (skb.data.read awdsHlen ethAlen) t.entries = sc
      at h1 hkept ⊢
    obtain ⟨front, rest⟩ := sc
    simp only at h1 hkept
    have hlength : tail.length = rest.length := by
      have hall := h1.length_eq
      simp only [List.length_append] at hall
      omega
    cases rest with
    | cons e rest =>
      -- The address has been found.
      cases tail with
      | nil => cases hlength
      | cons p tail =>
        obtain ⟨x, hx, rfl, -⟩ := h1.mid hkept
        simp only [List.head?_cons, entry_run hx, except_bind_ok]
        by_cases hold : UcDestTable.tooOld env.now x.toUcDest
        · -- The time is set. A freed first entry is not the one that is found.
          rw [if_pos hold, if_pos hold]
          refine ⟨_, rfl, ⟨_, h1.setTime hkept hx, hfirst⟩, fun hfrees => ?_⟩
          obtain ⟨q, hq, hnone⟩ := hgone hfrees
          have hqp : q ≠ p := by
            rintro rfl
            cases hnone.symm.trans hx
          exact ⟨q, hq, (Function.update_of_ne hqp _ _).trans hnone⟩
        · rw [if_neg hold, if_neg hold]
          exact ⟨s1, rfl, ⟨_, h1, hfirst⟩, hgone⟩
    | nil =>
      cases tail with
      | cons p tail => cases hlength
      | nil =>
        have h1 : HoldsList s1 kept front := by simpa using h1
        simp only [List.head?_nil, List.append_nil] at hfirst ⊢
        cases freed with
        | true =>
          -- The insertion goes through `sk->table`.
          obtain ⟨q, hq, hnone⟩ := hgone rfl
          simp [dangling_insert hq hnone]
        | false =>
          cases hkmalloc : env.kmallocOk with
          | true =>
            obtain ⟨s2, hinsert, h2, htable2⟩ :=
              h1.insert (skb.data.read awdsHlen ethAlen) (hfirst rfl) hkmalloc
            simp only [hinsert, except_bind_ok, Bool.not_true, Bool.false_eq_true, if_false]
            exact ⟨s2, rfl, ⟨_, h2, fun _ => htable2⟩, fun hfrees => by cases hfrees⟩
          | false =>
            have hinsert := h1.insert_failed (skb.data.read awdsHlen ethAlen) (hfirst rfl)
              hkmalloc
            simp only [hinsert, except_bind_ok, Bool.not_false, if_true]
            exact ⟨s1, rfl, ⟨_, h1, hfirst⟩, fun hfrees => by cases hfrees⟩

end

/-! ### The entries and the calls before -/

/-- A call of `awds_check_unicast_table` on the socket. -/
structure UcCall where
  now : Int
  skb : SkBuff

/-- `kmalloc` succeeds. -/
def UcCall.env (c : UcCall) : RcvEnv := { now := c.now }

def UcCall.mac (c : UcCall) : List UInt8 := frameMac c.skb

/-- The calls with their results, the last one first. -/
abbrev UcLog := List (UcCall × Bool)

/-- The time of the last call for an address that returned 0. -/
def lastRefused (log : UcLog) (mac : List UInt8) : Option Int :=
  (log.find? fun r => !r.2 && decide (r.1.mac = mac)).map fun r => r.1.now

section
variable {now : Int} {mac : List UInt8} {es : List UcDest} {e x : UcDest}

/-- The loop stops at the address, and keeps what is not too old in front of it. -/
theorem scan_eq (now : Int) (mac : List UInt8) (es : List UcDest) :
    UcDestTable.scan now mac es =
      ((es.takeWhile fun e => decide (e.mac ≠ mac)).filter fun e =>
        decide (¬UcDestTable.tooOld now e), es.dropWhile fun e => decide (e.mac ≠ mac)) := by
  induction es with
  | nil => rfl
  | cons e es ih =>
    rw [UcDestTable.scan, ih]
    by_cases hmac : e.mac = mac
    · simp [hmac]
    · by_cases hold : UcDestTable.tooOld now e
      · simp [hmac, hold]
      · simp [hmac, hold]

/-- The loop drops entries and keeps the order of the others. -/
theorem scan_sublist (now : Int) (mac : List UInt8) (es : List UcDest) :
    ((UcDestTable.scan now mac es).1 ++ (UcDestTable.scan now mac es).2).Sublist es := by
  rw [scan_eq]
  have hsub := (List.filter_sublist (p := fun e => decide (¬UcDestTable.tooOld now e))
    (l := es.takeWhile fun e => decide (e.mac ≠ mac))).append_right
      (es.dropWhile fun e => decide (e.mac ≠ mac))
  rwa [List.takeWhile_append_dropWhile] at hsub

/-- An entry that the loop does not keep is too old. -/
theorem mem_scan_or_tooOld (now : Int) (mac : List UInt8) (h : e ∈ es) :
    e ∈ (UcDestTable.scan now mac es).1 ++ (UcDestTable.scan now mac es).2 ∨
      UcDestTable.tooOld now e := by
  rw [scan_eq]
  by_cases hold : UcDestTable.tooOld now e
  · exact .inr hold
  · refine .inl ?_
    rw [← List.takeWhile_append_dropWhile (p := fun e => decide (e.mac ≠ mac)) (l := es)] at h
    rcases List.mem_append.mp h with h | h
    · exact List.mem_append_left _ (List.mem_filter.mpr ⟨h, by simpa using hold⟩)
    · exact List.mem_append_right _ h

/-- A packet that was allowed is no refused call. -/
@[simp] theorem lastRefused_allowed (c : UcCall) (log : UcLog) (mac : List UInt8) :
    lastRefused ((c, true) :: log) mac = lastRefused log mac := by
  simp [lastRefused]

/-- A packet that was refused is the last refused call for its address. -/
theorem lastRefused_refused (c : UcCall) (log : UcLog) (mac : List UInt8) :
    lastRefused ((c, false) :: log) mac =
      if c.mac = mac then some c.now else lastRefused log mac := by
  by_cases hmac : c.mac = mac
  · simp [lastRefused, hmac]
  · simp [lastRefused, hmac]

/-- The time is not in front of the last call. -/
def NotBefore (log : UcLog) (now : Int) : Prop := ∀ r ∈ log.head?, r.1.now ≤ now

/-- The entries have different addresses and the times of the last calls that returned 0. Such
a time without an entry is too old from now on. -/
structure TableInv (es : List UcDest) (log : UcLog) : Prop where
  nodup : (es.map UcDest.mac).Nodup
  logged : ∀ e ∈ es, lastRefused log e.mac = some e.time
  expired : ∀ mac time, lastRefused log mac = some time →
    (∃ e ∈ es, e.mac = mac) ∨ ∀ now, NotBefore log now → now - time - maxAwdsUcInterval > 0

variable {t t' : UcDestTable} {log : UcLog} {c : UcCall} {r : Bool}

/-- The results of a call on an intact table. -/
theorem check_cases (hlen : awdsHlen + ethAlen ≤ c.skb.len) (hintact : t.freed = false)
    (hrun : t.awdsCheckUnicastTable c.env c.skb = .ok (t', r)) :
    (∃ front e rest, UcDestTable.scan c.now c.mac t.entries = (front, e :: rest) ∧
      e.mac = c.mac ∧
      ((UcDestTable.tooOld c.now e ∧ r = false ∧
          t'.entries = front ++ { e with time := c.now } :: rest) ∨
        (¬UcDestTable.tooOld c.now e ∧ r = true ∧ t'.entries = front ++ e :: rest))) ∨
    ∃ front, UcDestTable.scan c.now c.mac t.entries = (front, []) ∧
      (∀ e ∈ t.entries, e.mac ≠ c.mac) ∧ r = false ∧
      t'.entries = ⟨c.mac, c.now⟩ :: front := by
  -- What the scan leaves over starts with the first entry for the address.
  have hrest := scan_rest c.now c.mac t.entries
  have hnone : (UcDestTable.scan c.now c.mac t.entries).2 = [] ↔ ∀ e ∈ t.entries, e.mac ≠ c.mac :=
    scan_rest_eq_nil
  unfold UcDestTable.awdsCheckUnicastTable at hrun
  rw [if_neg (Nat.not_lt.mpr hlen), hintact, if_neg Bool.false_ne_true] at hrun
  rcases hscan : UcDestTable.scan c.now c.mac t.entries with ⟨front, rest⟩
  dsimp only at hrun
  rw [show UcDestTable.scan c.env.now (c.skb.data.read awdsHlen ethAlen) t.entries = (front, rest)
    from hscan] at hrun
  rw [hscan] at hrest hnone
  cases rest with
  -- The entry was found: its age decides.
  | cons e rest =>
    have hmac : e.mac = c.mac := by simpa using List.find?_some hrest.symm
    refine .inl ⟨front, e, rest, rfl, hmac, ?_⟩
    dsimp only at hrun
    split at hrun
    · rename_i hold
      cases hrun
      exact .inl ⟨hold, rfl, rfl⟩
    · rename_i hold
      cases hrun
      exact .inr ⟨hold, rfl, rfl⟩
  -- None was found, so a new entry is put in front.
  | nil =>
    dsimp only at hrun
    split at hrun
    · cases hrun
    · rw [if_neg (by simp [UcCall.env])] at hrun
      cases hrun
      exact .inr ⟨front, rfl, hnone.mp rfl, rfl, rfl⟩

/-- The next call may come at the time of the last one or later. -/
theorem notBefore_cons : NotBefore ((c, r) :: log) now ↔ c.now ≤ now := by
  simp [NotBefore]

/-- An address without an entry behind the loop stays too old. -/
theorem TableInv.scan_expired (h : TableInv es log) (htime : NotBefore log c.now) {time : Int}
    (hlast : lastRefused log mac = some time) :
    (∃ e ∈ (UcDestTable.scan c.now c.mac es).1 ++ (UcDestTable.scan c.now c.mac es).2,
      e.mac = mac) ∨ ∀ now, c.now ≤ now → now - time - maxAwdsUcInterval > 0 := by
  rcases h.expired mac time hlast with ⟨e, he, rfl⟩ | hexpired
  · rcases mem_scan_or_tooOld c.now c.mac he with hkept | hold
    · exact .inl ⟨e, hkept, rfl⟩
    · -- The loop has removed the entry.
      have htime := Option.some.inj ((h.logged e he).symm.trans hlast)
      have hold : c.now - e.time - maxAwdsUcInterval > 0 := hold
      exact .inr fun now hnow => by omega
  · refine .inr fun now hnow => hexpired now fun r hr => ?_
    exact le_trans (htime r hr) hnow

/-- A call that returns 0 leaves an entry with its time. -/
theorem TableInv.refused (h : TableInv es log) (htime : NotBefore log c.now) (es' : List UcDest)
    (hnodup : (es'.map UcDest.mac).Nodup) (hnew : ⟨c.mac, c.now⟩ ∈ es')
    (hsame : ∀ x, x.mac ≠ c.mac → (x ∈ es' ↔
      x ∈ (UcDestTable.scan c.now c.mac es).1 ++ (UcDestTable.scan c.now c.mac es).2)) :
    TableInv es' ((c, false) :: log) := by
  refine ⟨hnodup, fun x hx => ?_, fun mac time hlast => ?_⟩
  · rw [lastRefused_refused]
    by_cases hmac : c.mac = x.mac
    · -- The addresses differ, so this is the new entry.
      have heq : (⟨c.mac, c.now⟩ : UcDest) = x := List.inj_on_of_nodup_map hnodup hnew hx hmac
      rw [if_pos hmac, ← heq]
    · rw [if_neg hmac]
      have hkept := (hsame x (Ne.symm hmac)).mp hx
      exact h.logged x ((scan_sublist c.now c.mac es).subset hkept)
  · simp only [notBefore_cons]
    rw [lastRefused_refused] at hlast
    by_cases hmac : c.mac = mac
    · exact .inl ⟨_, hnew, hmac⟩
    · rw [if_neg hmac] at hlast
      refine (h.scan_expired htime hlast).imp ?_ id
      rintro ⟨e, he, rfl⟩
      exact ⟨e, (hsame e (Ne.symm hmac)).mpr he, rfl⟩

/-- A call that returns 1 only removes entries that are too old. -/
theorem TableInv.allowed (h : TableInv es log) (htime : NotBefore log c.now) :
    TableInv ((UcDestTable.scan c.now c.mac es).1 ++ (UcDestTable.scan c.now c.mac es).2)
      ((c, true) :: log) := by
  have hsub := scan_sublist c.now c.mac es
  refine ⟨h.nodup.sublist (hsub.map UcDest.mac), fun x hx => ?_, fun mac time hlast => ?_⟩
  · rw [lastRefused_allowed]
    exact h.logged x (hsub.subset hx)
  · simp only [notBefore_cons]
    rw [lastRefused_allowed] at hlast
    exact h.scan_expired htime hlast

/-- What a call does with the entries and says, if they fit to the calls before. -/
theorem TableInv.step (h : TableInv t.entries log) (hlen : awdsHlen + ethAlen ≤ c.skb.len)
    (htime : NotBefore log c.now) (hintact : t.freed = false)
    (hrun : t.awdsCheckUnicastTable c.env c.skb = .ok (t', r)) :
    TableInv t'.entries ((c, r) :: log) ∧ (r = true ↔
      ∃ time, lastRefused log c.mac = some time ∧ c.now - maxAwdsUcInterval ≤ time) := by
  have hsub := scan_sublist c.now c.mac t.entries
  have hnodup := h.nodup.sublist (hsub.map UcDest.mac)
  have hrefused := h.refused (c := c) htime t'.entries
  have hallowed := h.allowed (c := c) htime
  rcases check_cases hlen hintact hrun with ⟨front, e, rest, hscan, hmac, hcase⟩ |
    ⟨front, hscan, hmissing, rfl, hentries⟩
  · rw [hscan] at hsub hnodup hrefused hallowed
    have hlast : lastRefused log c.mac = some e.time := by
      rw [← hmac]
      exact h.logged e (hsub.subset (by simp))
    have hanswer : (∃ time, lastRefused log c.mac = some time ∧ c.now - maxAwdsUcInterval ≤ time) ↔
        ¬UcDestTable.tooOld c.now e := by
      simp only [hlast, Option.some.injEq, exists_eq_left']
      show _ ↔ ¬(c.now - e.time - maxAwdsUcInterval > 0)
      omega
    rw [hanswer]
    rcases hcase with ⟨hold, rfl, hentries⟩ | ⟨hfresh, rfl, hentries⟩
    · -- The time of the entry is set.
      rw [hentries] at hrefused ⊢
      refine ⟨hrefused ?_ ?_ ?_, by simpa using hold⟩
      · simpa using hnodup
      · simp [← hmac]
      · intro x hx
        have hne : x ≠ e := fun heq => hx (heq ▸ hmac)
        have hne' : x ≠ { e with time := c.now } := fun heq => hx (heq ▸ hmac)
        simp [hne, hne']
    · refine ⟨?_, by simpa using hfresh⟩
      rw [hentries]
      exact hallowed
  · have hgone : ∀ e ∈ front, e.mac ≠ c.mac := by
      intro e he
      rw [hscan] at hsub
      exact hmissing e (hsub.subset (by simpa using he))
    have hanswer : ¬∃ time, lastRefused log c.mac = some time ∧
        c.now - maxAwdsUcInterval ≤ time := by
      rintro ⟨time, hlast, hrecent⟩
      -- The address has no entry, so its last refusal is too old already.
      rcases h.scan_expired htime hlast with ⟨e, he, hmac⟩ | hexpired
      · rw [hscan] at he
        exact hgone e (by simpa using he) hmac
      · have hold := hexpired c.now le_rfl
        omega
    rw [hscan] at hnodup hrefused
    rw [hentries] at hrefused ⊢
    refine ⟨hrefused ?_ ?_ ?_, by simpa using hanswer⟩
    · rw [List.map_cons, List.nodup_cons]
      refine ⟨?_, by simpa using hnodup⟩
      rw [List.mem_map]
      rintro ⟨e, he, hmac⟩
      exact hgone e he hmac
    · exact List.mem_cons_self
    · intro x hx
      have hne : x ≠ ⟨c.mac, c.now⟩ := fun heq => hx (by rw [heq])
      simp [hne]

end

/-! ### Runs -/

/-- The entries from `sk->table` on form an acyclic doubly linked list of allocated entries with
different addresses. -/
def TableIntact (s : UcDestHeap) : Prop :=
  ∃ ps, Chain AwdsUcDestTable.next AwdsUcDestTable.prev s.heap none s.table ps ∧ ps.Nodup ∧
    ∀ p ∈ ps, ∀ q ∈ ps, ∀ x y, s.heap p = some x → s.heap q = some y → x.mac = y.mac → p = q

/-- A call with a packet that has a frame, at a time that is not in front of the last call. -/
structure Follows (log : UcLog) (c : UcCall) : Prop where
  length : awdsHlen + ethAlen ≤ c.skb.len
  time : NotBefore log c.now

/-- The first entry has the address of the frame, or it is not too old. -/
def KeepsHead (s : UcDestHeap) (c : UcCall) : Prop :=
  ∀ p x, s.table = some p → s.heap p = some x →
    x.mac = c.mac ∨ ¬UcDestTable.tooOld c.now x.toUcDest

/-- A sequence of calls that return, from a socket without a table on. `ok` says which calls
there may be. -/
inductive UcRun (ok : UcDestHeap → UcCall → Prop) : UcDestHeap → UcLog → Prop
  | init : UcRun ok {} []
  | call {s s' : UcDestHeap} {log : UcLog} {c : UcCall} {r : Bool} (h : UcRun ok s log)
      (hnext : Follows log c) (hok : ok s c)
      (hrun : s.awdsCheckUnicastTable c.env c.skb = .ok (s', r)) : UcRun ok s' ((c, r) :: log)

section
variable {s s' : UcDestHeap} {t t' : UcDestTable} {log : UcLog} {c : UcCall} {r : Bool}

/-- Between the calls: the list of entries, its first entry, and the calls before. -/
structure Tracked (s : UcDestHeap) (t : UcDestTable) (log : UcLog) : Prop where
  rep : Represents s t
  notFreed : t.freed = false
  inv : TableInv t.entries log

/-- A table that has not lost its first entry is intact: the list starts at `sk->table`, and
different entries have different addresses. -/
theorem Represents.intact (h : Represents s t) (hfreed : t.freed = false)
    (hnodup : (t.entries.map UcDest.mac).Nodup) : TableIntact s := by
  obtain ⟨ps, hlist, htable⟩ := h.list
  -- The addresses of the entries, read from memory.
  have hmacs : (ps.map fun p => (readEntry s p).map UcDest.mac).Nodup := by
    have hcontents := congrArg (List.map (Option.map UcDest.mac)) hlist.contents
    simp only [List.map_map] at hcontents
    have hsome : t.entries.map (Option.map UcDest.mac ∘ some) =
        (t.entries.map UcDest.mac).map some := by simp
    show (ps.map (Option.map UcDest.mac ∘ readEntry s)).Nodup
    rw [hcontents, hsome]
    exact hnodup.map (Option.some_injective _)
  refine ⟨ps, htable hfreed ▸ hlist.chain, hlist.nodup, fun p hp q hq x y hx hy hmac => ?_⟩
  refine List.inj_on_of_nodup_map hmacs hp hq ?_
  simp [readEntry, hx, hy, hmac]

/-- A table whose pointer is into freed memory is not intact. -/
theorem not_intact_of_dangling {p : Nat} (htable : s.table = some p) (hfree : s.heap p = none) :
    ¬TableIntact s := by
  rintro ⟨ps, hchain, -⟩
  cases ps with
  | nil =>
    have hfirst : s.table = none := hchain
    cases htable.symm.trans hfirst
  | cons q ps =>
    obtain ⟨hfirst, x, hx, -⟩ := hchain
    obtain rfl := Option.some.inj (htable.symm.trans hfirst)
    cases hfree.symm.trans hx

/-- `KeepsHead` says on memory what `freesHead` says on the list of entries: the call does not free
the first one. -/
theorem keepsHead_iff (h : Represents s t) (hfreed : t.freed = false) :
    KeepsHead s c ↔ UcDestTable.freesHead c.now c.mac t.entries = false := by
  obtain ⟨ps, hlist, htable⟩ := h.list
  have htable := htable hfreed
  -- Without an entry nothing can be freed.
  cases ps with
  | nil =>
    have hnil : t.entries = [] := List.length_eq_zero_iff.mp hlist.length_eq.symm
    rw [hnil]
    refine iff_of_true (fun p x hp => ?_) rfl
    cases htable.symm.trans hp
  | cons p ps =>
    cases hentries : t.entries with
    | nil =>
      have hlength := hlist.length_eq
      rw [hentries] at hlength
      cases hlength
    | cons e es =>
      have hlist' : HoldsList s ([] ++ p :: ps) ([] ++ e :: es) := hentries ▸ hlist
      obtain ⟨x, hx, rfl, -⟩ := hlist'.mid rfl
      -- Both sides speak of the first entry: its address and its age.
      have hkeeps : KeepsHead s c ↔ x.mac = c.mac ∨ ¬UcDestTable.tooOld c.now x.toUcDest := by
        refine ⟨fun hk => hk p x htable hx, fun hk q y hq hy => ?_⟩
        obtain rfl := Option.some.inj (htable.symm.trans hq)
        obtain rfl := Option.some.inj (hx.symm.trans hy)
        exact hk
      rw [hkeeps]
      simp only [UcDestTable.freesHead, Bool.and_eq_false_iff, decide_eq_false_iff_not, ne_eq,
        not_not]

/-- A check that returns has freed the first entry exactly if it was too old and not the one of the
packet. -/
theorem check_freed (hlen : awdsHlen + ethAlen ≤ c.skb.len)
    (hrun : t.awdsCheckUnicastTable c.env c.skb = .ok (t', r)) :
    t'.freed = UcDestTable.freesHead c.now c.mac t.entries := by
  unfold UcDestTable.awdsCheckUnicastTable at hrun
  rw [if_neg (Nat.not_lt.mpr hlen)] at hrun
  split at hrun
  · cases hrun
  dsimp only at hrun
  split at hrun
  · split at hrun
    · cases hrun
      rfl
    · cases hrun
      rfl
  · split at hrun
    · cases hrun
    · rename_i hkept
      split at hrun
      · cases hrun
        exact (Bool.not_eq_true _ ▸ hkept).symm
      · cases hrun
        exact (Bool.not_eq_true _ ▸ hkept).symm

/-- The result of a call on the list in memory is one of a call on the list of entries. -/
theorem Represents.call (h : Represents s t)
    (hrun : s.awdsCheckUnicastTable c.env c.skb = .ok (s', r)) :
    ∃ t', t.awdsCheckUnicastTable c.env c.skb = .ok (t', r) ∧ Represents s' t' := by
  have hrefines := check_refines c.env c.skb h
  cases hflat : t.awdsCheckUnicastTable c.env c.skb with
  | error e =>
    rw [hflat] at hrefines
    cases hrun.symm.trans hrefines
  | ok res =>
    obtain ⟨t', r'⟩ := res
    rw [hflat] at hrefines
    obtain ⟨s'', hrun', h'⟩ := hrefines
    cases hrun.symm.trans hrun'
    exact ⟨t', rfl, h'⟩

/-- A call that does not free the first entry. -/
theorem Tracked.call (h : Tracked s t log) (hc : Follows log c) (hkeeps : KeepsHead s c) :
    ∃ s' t' r, s.awdsCheckUnicastTable c.env c.skb = .ok (s', r) ∧
      Tracked s' t' ((c, r) :: log) := by
  have hhead := (keepsHead_iff h.rep h.notFreed).mp hkeeps
  obtain ⟨⟨t', r⟩, hrun⟩ : ∃ r, t.awdsCheckUnicastTable c.env c.skb = .ok r :=
    (check_returns_iff hc.length).mpr ⟨h.notFreed, fun _ => hhead⟩
  have hrefines := check_refines c.env c.skb h.rep
  rw [hrun] at hrefines
  obtain ⟨s', hrun', hrep⟩ := hrefines
  refine ⟨s', t', r, hrun', hrep, ?_, (h.inv.step hc.length hc.time h.notFreed hrun).1⟩
  rw [check_freed hc.length hrun, hhead]

/-- In every run whose calls keep the first entry, there is a list of entries that the memory
represents and that the log of the calls explains. The induction is on the run. -/
theorem UcRun.tracked (h : UcRun KeepsHead s log) : ∃ t, Tracked s t log := by
  -- The condition on each call is that of `Tracked.call`.
  induction h with
  | init =>
    refine ⟨{}, ⟨⟨[], ⟨rfl, List.nodup_nil, by simp, rfl⟩, fun _ => rfl⟩, by simp⟩, rfl, ?_⟩
    exact ⟨List.nodup_nil, by simp, fun mac time hlast => by cases hlast⟩
  | @call s s' log c r h hnext hok hrun ih =>
    obtain ⟨t, ht⟩ := ih
    obtain ⟨s'', t', r', hrun', ht'⟩ := ht.call hnext hok
    cases hrun.symm.trans hrun'
    exact ⟨t', ht'⟩

/-- Take a run in which no call frees the first entry, and the next call. The table is intact in
front of this call. It is intact behind the call, which returns, if and only if this call does
not free the first entry either. A call that returns allows the packet to go to the local device
if and only if the last call for the address that did not is at most 15 seconds back. -/
theorem unicast_table_run (h : UcRun KeepsHead s log) (hc : Follows log c) :
    TableIntact s ∧
    ((∃ s' r, s.awdsCheckUnicastTable c.env c.skb = .ok (s', r) ∧ TableIntact s') ↔
      KeepsHead s c) ∧
    ∀ s' r, s.awdsCheckUnicastTable c.env c.skb = .ok (s', r) →
      (r = true ↔ ∃ time, lastRefused log c.mac = some time ∧
        c.now - maxAwdsUcInterval ≤ time) := by
  obtain ⟨t, ht⟩ := h.tracked
  refine ⟨ht.rep.intact ht.notFreed ht.inv.nodup, ⟨?_, fun hkeeps => ?_⟩, fun s' r hrun => ?_⟩
  · rintro ⟨s', r, hrun, hintact⟩
    obtain ⟨t', hflat, hrep⟩ := ht.rep.call hrun
    rw [keepsHead_iff ht.rep ht.notFreed, ← check_freed hc.length hflat]
    cases hfreed : t'.freed with
    | false => rfl
    | true =>
      obtain ⟨p, hp, hnone⟩ := hrep.dangling hfreed
      exact absurd hintact (not_intact_of_dangling hp hnone)
  · obtain ⟨s', t', r, hrun, ht'⟩ := ht.call hc hkeeps
    exact ⟨s', r, hrun, ht'.rep.intact ht'.notFreed ht'.inv.nodup⟩
  · obtain ⟨t', hflat, -⟩ := ht.rep.call hrun
    exact (ht.inv.step hc.length hc.time ht.notFreed hflat).2

/-- A packet with a frame for the address that has the byte `b` six times. -/
def frameFor (b : UInt8) : SkBuff where
  protocol := ethPAwds
  dev := 0
  ethDest := []
  ethSrc := []
  data _ := b
  len := awdsHlen + ethAlen

/-- The table behind a first call for the address of `frameFor 1` at the time 0. -/
def oneDest : UcDestHeap :=
  { UcDestHeap.setEntry {} 0
      { mac := frameMac (frameFor 1), time := 0, prev := none, next := none } with
    table := some 0
    nextPtr := 1 }

/-- One call for a new address makes a table of one entry. -/
theorem ucRun_oneDest (ok : UcDestHeap → UcCall → Prop) (hok : ok {} ⟨0, frameFor 1⟩) :
    UcRun ok oneDest [(⟨0, frameFor 1⟩, false)] :=
  .call .init ⟨le_rfl, by simp [NotBefore]⟩ hok rfl

/-- A second call for the address after 10 seconds. -/
theorem unicast_table_run_one : TableIntact oneDest ∧
    ∃ s, oneDest.awdsCheckUnicastTable { now := 10 } (frameFor 1) = .ok (s, true) ∧
      TableIntact s := by
  have hrun := ucRun_oneDest KeepsHead (fun p x hp => by cases hp)
  have hkeeps : KeepsHead oneDest ⟨10, frameFor 1⟩ := by
    intro p x hp hx
    cases hp
    cases hx
    exact .inl rfl
  obtain ⟨hintact, hreturns, hanswer⟩ :=
    unicast_table_run (c := ⟨10, frameFor 1⟩) hrun ⟨le_rfl, by simp [NotBefore]⟩
  obtain ⟨s, r, hs, hintact'⟩ := hreturns.mpr hkeeps
  obtain rfl : r = true := (hanswer s r hs).mpr ⟨0, by decide +kernel, by decide⟩
  exact ⟨hintact, s, hs, hintact'⟩

/-- The entry is too old when a call for another address comes: it is freed, and the insertion
reads it. In the second run the first one of two entries is freed, as the call is for the other
one, and `sk->table` points to it behind the call. -/
theorem unicast_table_freed :
    (∃ s log, UcRun (fun _ _ => True) s log ∧ Follows log ⟨16, frameFor 2⟩ ∧
      s.awdsCheckUnicastTable { now := 16 } (frameFor 2) = .error .useAfterFree) ∧
    ∃ s log, UcRun (fun _ _ => True) s log ∧ ¬TableIntact s := by
  have hone := ucRun_oneDest (fun _ _ => True) trivial
  refine ⟨⟨oneDest, _, hone, ⟨le_rfl, by simp [NotBefore]⟩, rfl⟩, ?_⟩
  -- The entry for the second address is in front of the other one when it gets too old.
  have htwo := UcRun.call (c := ⟨10, frameFor 2⟩) hone ⟨le_rfl, by simp [NotBefore]⟩ trivial rfl
  have hthree := UcRun.call (c := ⟨26, frameFor 1⟩) htwo ⟨le_rfl, by simp [NotBefore]⟩ trivial rfl
  exact ⟨_, _, hthree, not_intact_of_dangling (p := 1) rfl rfl⟩

end

end Awds.Proofs
