import Awds.Topology.Operations

/-!
# `Awds.Proofs.Topology.Links`: what one turn of the merge loop does

`feed` connects a new link with its reverse link through pointers. The source of a packet
lists its neighbours in ascending order, so a link vector holds at most one link to a
neighbour and `findLinkQuality` finds it (`findLinkQuality_eq_some_iff`). A write through
the pointer that `findLinkQuality` returns is then a change of "the link to `id`", which
`NDescr.mapLink` spells without an index.

`linkUp_eq` and `linkDown_eq` are the run equations of the two branches of the merge.
`linkUp` fails only where the metric does. Otherwise it changes two entries of the map:
the entry of the neighbour and the entry of the source.
-/

set_option autoImplicit false

namespace Awds.Proofs

open Std (ExtTreeMap)
open Awds.Lib Awds.AdjList

/-! ### Running a `Result` -/

/-- A value that is there goes on to the rest of the computation. Proofs step through `do` blocks
with this lemma instead of unfolding the monad. -/
@[simp] theorem except_bind_ok {ε α β : Type} (a : α) (f : α → Except ε β) :
    (Except.ok a >>= f) = f a := rfl

/-- An error ends the computation. -/
@[simp] theorem except_bind_error {ε α β : Type} (e : ε) (f : α → Except ε β) :
    (Except.error e >>= f) = .error e := rfl

/-- A bind that succeeds has a first part that succeeds. -/
theorem bind_eq_ok {ε α β : Type} {x : Except ε α} {f : α → Except ε β} {b : β} :
    (x >>= f) = .ok b ↔ ∃ a, x = .ok a ∧ f a = .ok b := by
  cases x with
  | error e => simp
  | ok a => simp

/-- A result that satisfies a test is there. -/
theorem exists_of_test {ε α : Type} (x : Except ε α) (test : α → Bool)
    (h : (match x with | .ok a => test a | .error _ => false) = true) :
    ∃ a, x = .ok a ∧ test a = true := by
  cases x with
  | error e => cases h
  | ok a => exact ⟨a, rfl, h⟩

/-- Whether a call returns a value that passes the test. -/
def returnsWith {ε α : Type} (x : Except ε α) (test : α → Bool) : Bool :=
  match x with
  | .ok a => test a
  | .error _ => false

/-- What a test by computation says about a call, for the runs on fixed inputs. -/
theorem exists_of_returnsWith {ε α : Type} {x : Except ε α} {test : α → Bool}
    (h : returnsWith x test = true) : ∃ a, x = .ok a ∧ test a = true :=
  exists_of_test x test h

/-- A fold that succeeds keeps what every successful step keeps. -/
theorem foldlM_invariant {σ α : Type} {f : σ → α → Result σ} {P : σ → Prop} :
    ∀ (l : List α) (s s' : σ), (∀ s a s', a ∈ l → P s → f s a = .ok s' → P s') → P s →
      l.foldlM f s = .ok s' → P s' := by
  intro l
  induction l with
  | nil =>
    intro s s' _ h hs
    cases hs
    exact h
  | cons a l ih =>
    intro s s' hstep h hs
    rw [List.foldlM_cons, bind_eq_ok] at hs
    obtain ⟨t, ht, hs⟩ := hs
    exact ih t s' (fun s a s' ha => hstep s a s' (List.mem_cons_of_mem _ ha))
      (hstep s a t List.mem_cons_self h ht) hs

/-! ### Ascending link vectors -/

/-- The links of a vector are in strictly ascending order of their neighbours. -/
abbrev AscendingLinks (ls : List LinkQuality) : Prop := Ascending LinkQuality.neighbor ls

/-- `lower_bound` finds the link to `id` in an ascending vector. -/
theorem findIdx_of_ascending {ls : List LinkQuality} (h : AscendingLinks ls) {i : Nat}
    {l : LinkQuality} (hi : ls[i]? = some l) :
    ls.findIdx (fun r => !decide (r.neighbor < l.neighbor)) = i := by
  obtain ⟨hlt, rfl⟩ := List.getElem?_eq_some_iff.mp hi
  rw [List.findIdx_eq hlt]
  refine ⟨by simp, fun j hj => ?_⟩
  have := List.pairwise_iff_getElem.mp h j i (by omega) hlt hj
  simpa using this

/-- In an ascending vector `findLinkQuality` finds the index of the link to `id`. -/
theorem findLinkQuality_eq_some_iff {nd : NDescr} (h : AscendingLinks nd.links)
    {id : NodeId} {i : Nat} :
    nd.findLinkQuality id = some i ↔ ∃ l, nd.links[i]? = some l ∧ l.neighbor = id := by
  unfold NDescr.findLinkQuality
  constructor
  · intro hf
    simp only at hf
    split at hf
    · cases hf
    · rename_i l hl
      split at hf
      · rename_i hn
        cases hf
        exact ⟨l, hl, hn⟩
      · cases hf
  · rintro ⟨l, hl, rfl⟩
    simp only [findIdx_of_ascending h hl, hl, if_true]

/-- In an ascending vector `findLinkQuality` fails exactly when no link goes to `id`. -/
theorem findLinkQuality_eq_none_iff {nd : NDescr} (h : AscendingLinks nd.links)
    {id : NodeId} :
    nd.findLinkQuality id = none ↔ ∀ l ∈ nd.links, l.neighbor ≠ id := by
  constructor
  · intro hf l hl hid
    obtain ⟨i, hi⟩ := List.mem_iff_getElem?.mp hl
    have := (findLinkQuality_eq_some_iff h).mpr ⟨l, hi, hid⟩
    rw [hf] at this
    cases this
  · intro hall
    cases hf : nd.findLinkQuality id with
    | none => rfl
    | some i =>
      obtain ⟨l, hl, hid⟩ := (findLinkQuality_eq_some_iff h).mp hf
      exact absurd hid (hall l (List.mem_of_getElem? hl))

end Awds.Proofs

namespace Awds.NDescr

open Awds.Proofs

/-- Changes the link to `id`, if there is one. -/
def mapLink (nd : NDescr) (id : NodeId) (f : LinkQuality → LinkQuality) : NDescr :=
  { nd with linklist := { nd.linklist with
      links := nd.linklist.links.map fun l => if l.neighbor = id then f l else l } }

/-- The link to `id`. -/
def linkTo (nd : NDescr) (id : NodeId) : Option LinkQuality :=
  nd.links.find? fun l => l.neighbor = id

/-- A write to one link is a write to one place of the vector. -/
@[simp] theorem links_modifyLink (nd : NDescr) (i : Nat) (f : LinkQuality → LinkQuality) :
    (nd.modifyLink i f).links = nd.links.modify i f := rfl

/-- A vector keeps its identity when its links are changed in place, so pointers into it stay good.
-/
@[simp] theorem buf_modifyLink (nd : NDescr) (i : Nat) (f : LinkQuality → LinkQuality) :
    (nd.modifyLink i f).linklist.buf = nd.linklist.buf := rfl

@[simp] theorem links_mapLink (nd : NDescr) (id : NodeId) (f : LinkQuality → LinkQuality) :
    (nd.mapLink id f).links = nd.links.map fun l => if l.neighbor = id then f l else l := rfl

@[simp] theorem buf_mapLink (nd : NDescr) (id : NodeId) (f : LinkQuality → LinkQuality) :
    (nd.mapLink id f).linklist.buf = nd.linklist.buf := rfl

/-- `updateNodeValidity` never sets a validity back. -/
theorem updateNodeValidity_eq (nd : NDescr) (t : AbsTime) :
    nd.updateNodeValidity t = { nd with nodeValidity := max nd.nodeValidity t } := by
  unfold updateNodeValidity
  split
  · rename_i h
    rw [max_eq_right h.le]
  · rename_i h
    rw [max_eq_left (not_lt.mp h)]

/-- The validity of a node is no part of its links. -/
@[simp] theorem links_updateNodeValidity (nd : NDescr) (t : AbsTime) :
    (nd.updateNodeValidity t).links = nd.links := by
  rw [updateNodeValidity_eq]
  rfl

@[simp] theorem linklist_updateNodeValidity (nd : NDescr) (t : AbsTime) :
    (nd.updateNodeValidity t).linklist = nd.linklist := by
  rw [updateNodeValidity_eq]

@[simp] theorem edgeValidity_updateNodeValidity (nd : NDescr) (t : AbsTime) :
    (nd.updateNodeValidity t).edgeValidity = nd.edgeValidity := by
  rw [updateNodeValidity_eq]

@[simp] theorem nodeValidity_updateNodeValidity (nd : NDescr) (t : AbsTime) :
    (nd.updateNodeValidity t).nodeValidity = max nd.nodeValidity t := by
  rw [updateNodeValidity_eq]

@[simp] theorem nodeName_updateNodeValidity (nd : NDescr) (t : AbsTime) :
    (nd.updateNodeValidity t).nodeName = nd.nodeName := by
  rw [updateNodeValidity_eq]

/-- Two changes of one link are one change. -/
theorem modifyLink_modifyLink (nd : NDescr) (i : Nat) (f g : LinkQuality → LinkQuality) :
    (nd.modifyLink i f).modifyLink i g = nd.modifyLink i (g ∘ f) := by
  simp only [modifyLink, NDescr.mk.injEq, LinkList.mk.injEq, true_and, and_true]
  apply List.ext_getElem?
  intro j
  simp only [List.getElem?_modify]
  by_cases hij : i = j
  · subst hij
    cases nd.linklist.links[i]? <;> simp
  · simp [hij]

/-- Changing the link at the index of `id` is changing the link to `id`. -/
theorem modifyLink_eq_mapLink {nd : NDescr} (h : AscendingLinks nd.links) {i : Nat}
    {l : LinkQuality} (hi : nd.links[i]? = some l) (f : LinkQuality → LinkQuality) :
    nd.modifyLink i f = nd.mapLink l.neighbor f := by
  simp only [modifyLink, mapLink, NDescr.mk.injEq, LinkList.mk.injEq, true_and, and_true]
  apply List.ext_getElem?
  intro j
  rw [List.getElem?_modify, List.getElem?_map]
  change _ = Option.map _ nd.links[j]?
  -- Behind the end both are empty.
  cases hj : nd.links[j]? with
  | none =>
    change nd.linklist.links[j]? = none at hj
    simp [hj]
  | some r =>
    have hj' : nd.linklist.links[j]? = some r := hj
    rw [hj']
    -- Only the link at `i` has its neighbour, since the list is ascending.
    by_cases hij : i = j
    · subst hij
      rw [hi] at hj
      cases hj
      simp
    · have hne : r.neighbor ≠ l.neighbor := by
        intro heq
        have h1 := findIdx_of_ascending h hi
        have h2 := findIdx_of_ascending h hj
        rw [heq] at h2
        exact hij (h1.symm.trans h2)
      simp [hij, hne]

/-- Without a link to `id` there is nothing to change. -/
theorem mapLink_of_not_mem {nd : NDescr} {id : NodeId} (h : ∀ l ∈ nd.links, l.neighbor ≠ id)
    (f : LinkQuality → LinkQuality) : nd.mapLink id f = nd := by
  have : nd.linklist.links.map (fun l => if l.neighbor = id then f l else l)
      = nd.linklist.links := by
    conv_rhs => rw [← List.map_id nd.linklist.links]
    exact List.map_congr_left fun l hl => by simp [h l hl]
  simp only [mapLink, this]

/-- Two changes of the link to `id` are one change, if the first keeps the neighbour. -/
theorem mapLink_mapLink (nd : NDescr) (id : NodeId) (f g : LinkQuality → LinkQuality)
    (hf : ∀ l, (f l).neighbor = l.neighbor) :
    (nd.mapLink id f).mapLink id g = nd.mapLink id (g ∘ f) := by
  simp only [mapLink, NDescr.mk.injEq, LinkList.mk.injEq, true_and, and_true, List.map_map]
  refine List.map_congr_left fun l _ => ?_
  by_cases hl : l.neighbor = id <;> simp [hl, hf]

/-- In an ascending vector the link to `id` is the one at the index that
`findLinkQuality` returns. -/
theorem linkTo_eq_some_iff {nd : NDescr} (h : AscendingLinks nd.links) {id : NodeId}
    {l : LinkQuality} : nd.linkTo id = some l ↔ l ∈ nd.links ∧ l.neighbor = id := by
  unfold linkTo
  constructor
  · intro hl
    exact ⟨List.mem_of_find?_eq_some hl, by simpa using List.find?_some hl⟩
  · rintro ⟨hl, hid⟩
    cases hf : nd.links.find? (fun l => l.neighbor = id) with
    | none =>
      rw [List.find?_eq_none] at hf
      exact absurd hid (by simpa using hf l hl)
    | some r =>
      have hr : r ∈ nd.links := List.mem_of_find?_eq_some hf
      have hrid : r.neighbor = id := by simpa using List.find?_some hf
      rw [h.eq_of_key_eq hr hl (by rw [hrid, hid])]

/-- No link leads to a neighbour exactly if none of the vector does. -/
theorem linkTo_eq_none_iff {nd : NDescr} {id : NodeId} :
    nd.linkTo id = none ↔ ∀ l ∈ nd.links, l.neighbor ≠ id := by
  simp [linkTo, List.find?_eq_none]

/-- Changes every link. -/
def mapLinks (nd : NDescr) (f : LinkQuality → LinkQuality) : NDescr :=
  { nd with linklist := { nd.linklist with links := nd.linklist.links.map f } }

@[simp] theorem links_mapLinks (nd : NDescr) (f : LinkQuality → LinkQuality) :
    (nd.mapLinks f).links = nd.links.map f := rfl

@[simp] theorem buf_mapLinks (nd : NDescr) (f : LinkQuality → LinkQuality) :
    (nd.mapLinks f).linklist.buf = nd.linklist.buf := rfl

/-- A change of the links to one neighbour is one of all links, which does nothing to the others. -/
theorem mapLink_eq_mapLinks (nd : NDescr) (id : NodeId) (f : LinkQuality → LinkQuality) :
    nd.mapLink id f = nd.mapLinks fun l => if l.neighbor = id then f l else l := rfl

/-- Two changes of all links are one. -/
theorem mapLinks_mapLinks (nd : NDescr) (f g : LinkQuality → LinkQuality) :
    (nd.mapLinks f).mapLinks g = nd.mapLinks (g ∘ f) := by
  simp [mapLinks]

/-- Only what a change does to the links of the vector matters. -/
theorem mapLinks_congr {nd : NDescr} {f g : LinkQuality → LinkQuality}
    (h : ∀ l ∈ nd.links, f l = g l) : nd.mapLinks f = nd.mapLinks g := by
  have : nd.linklist.links.map f = nd.linklist.links.map g := List.map_congr_left h
  simp only [mapLinks, this]

/-- A change that does nothing to the links of the vector does nothing. -/
theorem mapLinks_eq_self {nd : NDescr} {f : LinkQuality → LinkQuality}
    (h : ∀ l ∈ nd.links, f l = l) : nd.mapLinks f = nd := by
  have : nd.linklist.links.map f = nd.linklist.links := 
    (List.map_congr_left h).trans (List.map_id _)
  simp only [mapLinks, this]

section
variable {f : LinkQuality → LinkQuality} (hf : ∀ l, (f l).neighbor = l.neighbor)
include hf

/-- `findLinkQuality` only looks at the neighbours. -/
theorem findLinkQuality_mapLinks (nd : NDescr) (id : NodeId) :
    (nd.mapLinks f).findLinkQuality id = nd.findLinkQuality id := by
  simp only [findLinkQuality, links_mapLinks, List.findIdx_map, Function.comp_def, hf,
    List.getElem?_map]
  cases nd.links[nd.links.findIdx fun l => !decide (l.neighbor < id)]? with
  | none => rfl
  | some l => simp only [Option.map_some, hf]

/-- A change that keeps the neighbours is found again at the same link. -/
theorem linkTo_mapLinks (nd : NDescr) (id : NodeId) :
    (nd.mapLinks f).linkTo id = (nd.linkTo id).map f := by
  simp only [linkTo, links_mapLinks, List.find?_map, Function.comp_def, hf]

/-- A change that keeps the neighbours keeps the order. -/
theorem ascending_mapLinks {nd : NDescr} (h : AscendingLinks nd.links) :
    AscendingLinks (nd.mapLinks f).links := by
  unfold AscendingLinks Awds.Lib.Ascending at *
  rw [links_mapLinks, List.pairwise_map]
  exact h.imp fun {a b} hab => by rw [hf, hf]; exact hab

end

end Awds.NDescr

namespace Awds.Proofs

open Std (ExtTreeMap)
open Awds.Lib Awds.AdjList

/-! ### Lookups in the map -/

section
variable (adj : AdjList) (k id : NodeId)

/-- The entry behind a change of the entry `k`. The lemmas on the map split on the key in this way,
so that no proof has to know how the map is made. -/
@[simp] theorem getElem?_modifyAt (f : NDescr → NDescr) :
    (adj.modify k f)[id]? = if k = id then adj[id]?.map f else adj[id]? := by
  rw [ExtTreeMap.getElem?_modify]
  by_cases h : k = id
  · subst h
    simp
  · simp [h]

/-- The entry behind an insertion at `k`. -/
@[simp] theorem getElem?_insertAt (nd : NDescr) :
    (adj.insert k nd)[id]? = if k = id then some nd else adj[id]? := by
  rw [ExtTreeMap.getElem?_insert]
  simp

/-- The entry behind the removal of `k`. -/
@[simp] theorem getElem?_eraseAt :
    (adj.erase k)[id]? = if k = id then none else adj[id]? := by
  rw [ExtTreeMap.getElem?_erase]
  simp

end

/-- A node is in the map exactly if it has an entry. -/
theorem mem_iff_getElem? (adj : AdjList) (id : NodeId) : id ∈ adj ↔ ∃ nd, adj[id]? = some nd := by
  rw [ExtTreeMap.mem_iff_isSome_getElem?, Option.isSome_iff_exists]

/-- A node is not in the map exactly if the lookup finds nothing. -/
theorem not_mem_iff_getElem? (adj : AdjList) (id : NodeId) : id ∉ adj ↔ adj[id]? = none := by
  rw [ExtTreeMap.mem_iff_isSome_getElem?]
  simp

/-- Changing an entry that was just written. -/
theorem modify_insert (adj : AdjList) (id : NodeId) (nd : NDescr) (f : NDescr → NDescr) :
    (adj.insert id nd).modify id f = adj.insert id (f nd) := by
  refine ExtTreeMap.ext_getElem? fun k => ?_
  by_cases h : id = k <;> simp [h]

/-- Two changes of one entry are one. -/
theorem modify_modify (adj : AdjList) (id : NodeId) (f g : NDescr → NDescr) :
    (adj.modify id f).modify id g = adj.modify id fun nd => g (f nd) := by
  refine ExtTreeMap.ext_getElem? fun k => ?_
  by_cases h : id = k <;> simp [h, Function.comp_def]

/-- The entry of a node, or the one that `getNodeEntry` creates for it. -/
def entryOf (st : Station) (now : AbsTime) (adj : AdjList) (id : NodeId) : NDescr :=
  match adj[id]? with
  | none =>
    { NDescr.new st with
      nodeValidity := now + RTopology.entryLifetime
      edgeValidity := now + RTopology.entryLifetime }
  | some nd => nd

/-- `getNodeEntry` finds the entry that is there. -/
theorem entryOf_of_some {st : Station} {now : AbsTime} {adj : AdjList} {id : NodeId}
    {nd : NDescr} (h : adj[id]? = some nd) : entryOf st now adj id = nd := by
  simp [entryOf, h]

/-- `getNodeEntry` makes sure that the entry of `id` is there. -/
theorem getNodeEntry_adjList (st : Station) (now : AbsTime) (s : RTopology) (id : NodeId) :
    (s.getNodeEntry st now id).adjList = s.adjList.insert id (entryOf st now s.adjList id) := by
  refine ExtTreeMap.ext_getElem? fun k => ?_
  rw [RTopology.getNodeEntry]
  by_cases hmem : id ∈ s.adjList
  · obtain ⟨nd, hnd⟩ := (mem_iff_getElem? _ _).mp hmem
    rw [if_pos hmem, entryOf_of_some hnd, getElem?_insertAt]
    split
    · rename_i hk
      rw [← hk, hnd]
    · rfl
  · have hnone := (not_mem_iff_getElem? _ _).mp hmem
    rw [if_neg hmem]
    simp only [RTopology.emit]
    split <;> simp [entryOf, hnone]

/-- The fields that `getNodeEntry` leaves alone. -/
theorem getNodeEntry_frame (st : Station) (now : AbsTime) (s : RTopology) (id : NodeId) :
    (s.getNodeEntry st now id).dirty = s.dirty ∧
      (s.getNodeEntry st now id).locked = s.locked ∧
      (s.getNodeEntry st now id).watched = s.watched ∧
      (s.getNodeEntry st now id).nextBuf = s.nextBuf := by
  rw [RTopology.getNodeEntry]
  split
  · exact ⟨rfl, rfl, rfl, rfl⟩
  · simp only [RTopology.emit]
    split <;> exact ⟨rfl, rfl, rfl, rfl⟩

/-! ### Pointers -/

/-- The map after a write through a pointer that resolves. -/
def write (adj : AdjList) (p : LinkPtr) (f : LinkQuality → LinkQuality) : AdjList :=
  adj.modify p.owner fun nd => nd.modifyLink p.idx f

/-- Two pointers to one element, whatever buffers they name. -/
def SamePlace (p q : LinkPtr) : Prop := p.owner = q.owner ∧ p.idx = q.idx

instance (p q : LinkPtr) : Decidable (SamePlace p q) :=
  inferInstanceAs (Decidable (_ ∧ _))

section
variable {adj : AdjList} {p q : LinkPtr} {l r : LinkQuality}

/-- A pointer resolves exactly if its owner has an entry, the vector of the entry is still the one
that the pointer was made for, and the index is in its bounds. -/
theorem link?_eq_some_iff : adj.link? p = some l ↔
    ∃ nd, adj[p.owner]? = some nd ∧ nd.linklist.buf = p.buf ∧ nd.links[p.idx]? = some l := by
  unfold link?
  cases adj[p.owner]? with
  | none => simp
  | some nd => by_cases h : nd.linklist.buf = p.buf <;> simp [h]

/-- A pointer that resolves can be read. -/
theorem deref_of_link? (h : adj.link? p = some l) : adj.deref p = .ok l := by
  simp [deref, h]

/-- A pointer that resolves can be written through. -/
theorem modifyLink_of_link? (h : adj.link? p = some l) (f : LinkQuality → LinkQuality) :
    adj.modifyLink p f = .ok (write adj p f) := by
  simp [AdjList.modifyLink, h, write]

/-- A write changes the element it goes to and no other. -/
theorem link?_write (f : LinkQuality → LinkQuality) (q : LinkPtr) :
    (write adj p f).link? q =
      if SamePlace p q then (adj.link? q).map f else adj.link? q := by
  unfold link? write SamePlace
  rw [getElem?_modifyAt]
  by_cases ho : p.owner = q.owner
  · rw [if_pos ho]
    cases adj[q.owner]? with
    | none => exact (ite_self none).symm
    | some nd =>
      simp only [Option.map_some, NDescr.buf_modifyLink, NDescr.links_modifyLink,
        List.getElem?_modify, ho, true_and]
      by_cases hb : nd.linklist.buf = q.buf <;> by_cases hi : p.idx = q.idx <;> simp [hb, hi]
  · simp [ho]

/-- What was written is read back through the same pointer. -/
theorem link?_write_self (h : adj.link? p = some l) (f : LinkQuality → LinkQuality) :
    (write adj p f).link? p = some (f l) := by
  simp [link?_write, SamePlace, h]

/-- A write leaves the links at other places as they are. -/
theorem link?_write_of_ne (hne : ¬ SamePlace p q) (f : LinkQuality → LinkQuality) :
    (write adj p f).link? q = adj.link? q := by
  simp [link?_write, hne]

/-- Two writes through one pointer are one. -/
theorem write_write (adj : AdjList) (p : LinkPtr) (f g : LinkQuality → LinkQuality) :
    write (write adj p f) p g = write adj p (g ∘ f) := by
  refine ExtTreeMap.ext_getElem? fun k => ?_
  unfold write
  by_cases h : p.owner = k
  · simp [h, Function.comp_def, NDescr.modifyLink_modifyLink]
  · simp [h]

/-- Writes to different elements commute. -/
theorem write_comm (adj : AdjList) (hne : ¬ SamePlace p q) (f g : LinkQuality → LinkQuality) :
    write (write adj p f) q g = write (write adj q g) p f := by
  refine ExtTreeMap.ext_getElem? fun k => ?_
  unfold write
  by_cases hp : p.owner = k <;> by_cases hq : q.owner = k
  · have hi : p.idx ≠ q.idx := fun hi => hne ⟨hp.trans hq.symm, hi⟩
    simp only [getElem?_modifyAt, hp, hq, if_true, Option.map_map]
    congr 1
    funext nd
    simp only [Function.comp_def, NDescr.modifyLink, NDescr.mk.injEq, LinkList.mk.injEq,
      true_and, and_true]
    apply List.ext_getElem?
    intro j
    simp only [List.getElem?_modify]
    by_cases h1 : p.idx = j <;> by_cases h2 : q.idx = j
    · exact absurd (h1.trans h2.symm) hi
    all_goals simp [h1, h2]
  all_goals simp [hp, hq]

end

/-! ### Connecting a link with its reverse link -/

/-- The weight that `calculate` gives a link of quality `f` with the reverse quality `b`,
if there is a reverse link. -/
def linkWeight (m : Metric) (f : UInt16) : Option UInt16 → Result UInt32
  | none => .ok Metric.ceiling
  | some b => do
    let mw ← m.myCalculate f b
    .ok (min mw Metric.ceiling)

/-- A link that is connected with `cp` and has the weight `w`. -/
def connect (cp : Option LinkPtr) (w : UInt32) (l : LinkQuality) : LinkQuality :=
  { l with counterpart := cp, metricWeight := w }

/-- The last connection counts. -/
theorem mapLink_connect (nd : NDescr) (id : NodeId) (cp cp' : Option LinkPtr) (w w' : UInt32) :
    (nd.mapLink id (connect cp w)).mapLink id (connect cp' w') = nd.mapLink id (connect cp' w') :=
  NDescr.mapLink_mapLink nd id _ _ fun _ => rfl

section
variable {adj : AdjList} {it q : LinkPtr} {l r : LinkQuality} (m : Metric)

/-- Setting the counterpart and calculating the weight of a link without a reverse
link. -/
theorem connect_none (hit : adj.link? it = some l) :
    (do let adj ← adj.setCounterpart it none
        m.calculate adj it) = .ok (write adj it (connect none Metric.ceiling)) := by
  have hmin : min (0xffffffff : UInt32) Metric.ceiling = Metric.ceiling := by decide
  have h1 := link?_write_self hit fun l => { l with counterpart := none }
  have h2 := link?_write_self h1 fun l => { l with metricWeight := Metric.ceiling }
  simp only [setCounterpart, modifyLink_of_link? hit, except_bind_ok, Metric.calculate,
    getQualities, deref_of_link? h1, hmin, setMetricWeight, modifyLink_of_link? h1,
    deref_of_link? h2]
  rw [write_write]
  rfl

/-- The same for a link whose reverse link is the link itself. -/
theorem connect_self (hit : adj.link? it = some l) :
    (do let adj ← adj.setCounterpart it (some it)
        m.calculate adj it) =
      (do let w ← linkWeight m l.quality (some l.quality)
          .ok (write adj it (connect (some it) w))) := by
  have h0 := link?_write_self hit fun l => { l with counterpart := some it }
  have h1 := link?_write_self h0 fun l => { l with counterpart := some it }
  simp only [setCounterpart, modifyLink_of_link? hit, except_bind_ok, modifyLink_of_link? h0,
    Metric.calculate, getQualities, deref_of_link? h1, linkWeight, setMetricWeight,
    modifyLink_of_link? h1]
  cases m.myCalculate l.quality l.quality with
  | error e => rfl
  | ok mw =>
    have h2 := link?_write_self h1 fun l => { l with metricWeight := min mw Metric.ceiling }
    simp only [except_bind_ok, deref_of_link? h2, modifyLink_of_link? h2]
    rw [write_write, write_write, write_write]
    rfl

/-- The same for a link with the reverse link `q`. -/
theorem connect_some (hit : adj.link? it = some l) (hq : adj.link? q = some r)
    (hne : ¬ SamePlace it q) :
    (do let adj ← adj.setCounterpart it (some q)
        m.calculate adj it) =
      (do let w ← linkWeight m l.quality (some r.quality)
          .ok (write (write adj q (connect (some it) w)) it (connect (some q) w))) := by
  have hne' : ¬ SamePlace q it := fun h => hne ⟨h.1.symm, h.2.symm⟩
  have hq0 := link?_write_self hq fun l => { l with counterpart := some it }
  have hit0 := (link?_write_of_ne hne' fun l => { l with counterpart := some it }).trans hit
  have hit1 := link?_write_self hit0 fun l => { l with counterpart := some q }
  have hq1 := (link?_write_of_ne hne fun l => { l with counterpart := some q }).trans hq0
  simp only [setCounterpart, modifyLink_of_link? hq, except_bind_ok, modifyLink_of_link? hit0,
    Metric.calculate, getQualities, deref_of_link? hit1, deref_of_link? hq1, linkWeight,
    setMetricWeight, modifyLink_of_link? hit1]
  cases m.myCalculate l.quality r.quality with
  | error e => rfl
  | ok mw =>
    have hit2 := link?_write_self hit1 fun l => { l with metricWeight := min mw Metric.ceiling }
    have hq2 := (link?_write_of_ne hne fun l =>
      { l with metricWeight := min mw Metric.ceiling }).trans hq1
    simp only [except_bind_ok, deref_of_link? hit2, modifyLink_of_link? hq2]
    rw [write_write _ it, write_comm _ hne, write_write]
    rfl

end

/-- A link that has lost its reverse link. -/
def disconnect (l : LinkQuality) : LinkQuality := { l with counterpart := none }

/-- Writing through the pointer that `findLinkQuality` returned for `id`. -/
theorem write_eq_modify_mapLink {adj : AdjList} {v id : NodeId} {nd : NDescr} {i : Nat}
    {l : LinkQuality} (hv : adj[v]? = some nd) (hasc : AscendingLinks nd.links)
    (hi : nd.links[i]? = some l) (hid : l.neighbor = id) (buf : Nat)
    (f : LinkQuality → LinkQuality) :
    write adj ⟨v, buf, i⟩ f = adj.modify v fun nd => nd.mapLink id f := by
  refine ExtTreeMap.ext_getElem? fun k => ?_
  unfold write
  rw [getElem?_modifyAt, getElem?_modifyAt]
  by_cases h : v = k
  · subst h
    rw [if_pos rfl, if_pos rfl, hv, Option.map_some, Option.map_some,
      NDescr.modifyLink_eq_mapLink hasc hi, hid]
  · rw [if_neg h, if_neg h]

/-- The entry of the neighbour `v` of a new link, before the link is connected. -/
def raisedEntry (st : Station) (now newValidity : AbsTime) (adj : AdjList) (v : NodeId) :
    NDescr :=
  (entryOf st now adj v).updateNodeValidity newValidity

/-- The map after the link `src → v` was connected with the weight `w`. -/
def linkedUp (st : Station) (now newValidity : AbsTime) (src v : NodeId) (it : LinkPtr)
    (w : UInt32) (adj : AdjList) : AdjList :=
  let nd := raisedEntry st now newValidity adj v
  let cp := (nd.findLinkQuality src).map fun j => (⟨v, nd.linklist.buf, j⟩ : LinkPtr)
  (adj.insert v (nd.mapLink src (connect (some it) w))).modify src
    fun ns => ns.mapLink v (connect cp w)

section
variable (st : Station) (now newValidity : AbsTime) {s : RTopology} {src v : NodeId}
  {ns : NDescr} {new l : LinkQuality} {i : Nat}

/-- The entry of the source is still there when the entry of the neighbour is raised. -/
theorem raisedEntry_linklist_src (hs : s.adjList[src]? = some ns) :
    (raisedEntry st now newValidity s.adjList src).linklist = ns.linklist := by
  rw [raisedEntry, NDescr.linklist_updateNodeValidity, entryOf_of_some hs]

/-- A new or raised entry of the neighbour does not change the links of the source, also where the
neighbour is the source itself. -/
theorem insert_raisedEntry_src (hs : s.adjList[src]? = some ns) :
    ∃ ns', (s.adjList.insert v (raisedEntry st now newValidity s.adjList v))[src]? = some ns' ∧
      ns'.linklist = ns.linklist := by
  by_cases hv : v = src
  · subst hv
    exact ⟨_, by rw [getElem?_insertAt, if_pos rfl], raisedEntry_linklist_src st now newValidity hs⟩
  · exact ⟨ns, by rw [getElem?_insertAt, if_neg hv, hs], rfl⟩

/-- The state before the link is connected. -/
theorem raise_adjList (s : RTopology) (v : NodeId) :
    ((s.getNodeEntry st now v).modifyNode v
      fun nd => nd.updateNodeValidity newValidity).adjList
      = s.adjList.insert v (raisedEntry st now newValidity s.adjList v) := by
  rw [RTopology.modifyNode, getNodeEntry_adjList, modify_insert]
  rfl

/-- The run of `linkUp`: it fails only where the metric does. -/
theorem linkUp_eq (hs : s.adjList[src]? = some ns) (hasc : AscendingLinks ns.links)
    (hi : ns.links[i]? = some l) (hl : l.neighbor = new.neighbor)
    (hv : AscendingLinks (raisedEntry st now newValidity s.adjList new.neighbor).links) :
    s.linkUp st now newValidity src ns.linklist.buf new i = (do
      let w ← linkWeight st.metric l.quality
        (((raisedEntry st now newValidity s.adjList new.neighbor).linkTo src).map
          LinkQuality.quality)
      .ok { s.getNodeEntry st now new.neighbor with
        adjList := linkedUp st now newValidity src new.neighbor ⟨src, ns.linklist.buf, i⟩ w
          s.adjList }) := by
  set v := new.neighbor with hvdef
  set nd := raisedEntry st now newValidity s.adjList v with hnd
  set it : LinkPtr := ⟨src, ns.linklist.buf, i⟩ with hitdef
  set adj1 : AdjList := s.adjList.insert v nd with hadj1
  obtain ⟨ns', hs', hlist⟩ := insert_raisedEntry_src (v := v) st now newValidity hs
  have hlinks' : ns'.links = ns.links := congrArg LinkList.links hlist
  have hit : AdjList.link? adj1 it = some l :=
    link?_eq_some_iff.mpr ⟨ns', hs', by rw [hlist], by rw [hlinks', hi]⟩
  have hv1 : adj1[v]? = some nd := by rw [hadj1, getElem?_insertAt, if_pos rfl]
  have hsrc : ∀ w cp, write adj1 it (connect cp w)
      = adj1.modify src fun ns => ns.mapLink v (connect cp w) := fun w cp =>
    write_eq_modify_mapLink hs' (hlinks' ▸ hasc) (hlinks' ▸ hi) hl _ _
  have hrun : s.linkUp st now newValidity src ns.linklist.buf new i = (do
      let adj ← (do let adj ← AdjList.setCounterpart adj1 it (AdjList.findLink adj1 v src)
                    st.metric.calculate adj it)
      .ok { s.getNodeEntry st now v with adjList := adj }) := by
    simp only [RTopology.linkUp, raise_adjList, bind_assoc]
    rfl
  have hfind : AdjList.findLink adj1 v src
      = (nd.findLinkQuality src).map fun j => ⟨v, nd.linklist.buf, j⟩ := by
    simp only [findLink, hv1]
  have hup : ∀ w, linkedUp st now newValidity src v it w s.adjList
      = (adj1.modify v fun nd => nd.mapLink src (connect (some it) w)).modify src
          fun ns => ns.mapLink v (connect (AdjList.findLink adj1 v src) w) := by
    intro w
    rw [linkedUp, hfind, hadj1, modify_insert]
  rw [hrun]
  simp only [hup]
  rw [hfind]
  cases hf : nd.findLinkQuality src with
  | none =>
    -- no reverse link
    have hno := (findLinkQuality_eq_none_iff hv).mp hf
    have hmod : ∀ w, (adj1.modify v fun nd => nd.mapLink src (connect (some it) w)) = adj1 := by
      intro w
      rw [hadj1, modify_insert, NDescr.mapLink_of_not_mem hno]
    rw [Option.map_none, connect_none _ hit, NDescr.linkTo_eq_none_iff.mpr hno, hsrc]
    simp only [linkWeight, except_bind_ok, Option.map_none, hmod]
  | some j =>
    obtain ⟨r, hr, hrsrc⟩ := (findLinkQuality_eq_some_iff hv).mp hf
    have hq : AdjList.link? adj1 ⟨v, nd.linklist.buf, j⟩ = some r :=
      link?_eq_some_iff.mpr ⟨nd, hv1, rfl, hr⟩
    have hto : nd.linkTo src = some r :=
      (NDescr.linkTo_eq_some_iff hv).mpr ⟨List.mem_of_getElem? hr, hrsrc⟩
    by_cases hself : v = src
    · -- a link of the source to itself is its own reverse link
      have hlist' : nd.linklist = ns.linklist := by
        rw [hnd, hself]
        exact raisedEntry_linklist_src st now newValidity hs
      have hlinks : nd.links = ns.links := congrArg LinkList.links hlist'
      have hij : j = i := by
        rw [← findIdx_of_ascending hv hr, ← findIdx_of_ascending hasc hi, hl, hrsrc, hself, hlinks]
      have hptr : (⟨v, nd.linklist.buf, j⟩ : LinkPtr) = it := by
        rw [hlist', hself, hij]
      have hrl : r = l := by
        rw [hlinks, hij, hi] at hr
        exact (Option.some.inj hr).symm
      rw [Option.map_some, hptr, connect_self _ hit, hto, hrl]
      simp only [Option.map_some, hsrc, bind_assoc, except_bind_ok, hself, modify_modify]
      simp only [mapLink_connect]
    · -- the reverse link belongs to another node
      have hne : ¬ SamePlace it ⟨v, nd.linklist.buf, j⟩ := fun h => hself h.1.symm
      have hback : ∀ w, write adj1 ⟨v, nd.linklist.buf, j⟩ (connect (some it) w)
          = adj1.modify v fun nd => nd.mapLink src (connect (some it) w) := fun w =>
        write_eq_modify_mapLink hv1 hv hr hrsrc _ _
      have hforth : ∀ w, write (adj1.modify v fun nd => nd.mapLink src (connect (some it) w)) it
            (connect (some ⟨v, nd.linklist.buf, j⟩) w)
          = (adj1.modify v fun nd => nd.mapLink src (connect (some it) w)).modify src
            fun ns => ns.mapLink v (connect (some ⟨v, nd.linklist.buf, j⟩) w) := fun w =>
        write_eq_modify_mapLink (by rw [getElem?_modifyAt, if_neg hself, hs']) (hlinks' ▸ hasc)
          (hlinks' ▸ hi) hl _ _
      rw [Option.map_some, connect_some _ hit hq hne, hto]
      simp only [Option.map_some, hback, hforth, bind_assoc, except_bind_ok]

/-- The run of `linkDown`: the reverse link loses its counterpart. -/
theorem linkDown_eq {old : LinkQuality}
    (hv : AscendingLinks (entryOf st now s.adjList old.neighbor).links) :
    s.linkDown st now src old = .ok { s.getNodeEntry st now old.neighbor with
      adjList := s.adjList.insert old.neighbor
        ((entryOf st now s.adjList old.neighbor).mapLink src disconnect) } := by
  set v := old.neighbor with hvdef
  set nd := entryOf st now s.adjList v with hnd
  set adj1 : AdjList := s.adjList.insert v nd with hadj1
  have hv1 : adj1[v]? = some nd := by rw [hadj1, getElem?_insertAt, if_pos rfl]
  have hfind : AdjList.findLink adj1 v src
      = (nd.findLinkQuality src).map fun j => ⟨v, nd.linklist.buf, j⟩ := by
    simp only [findLink, hv1]
  rw [RTopology.linkDown]
  simp only [getNodeEntry_adjList, ← hvdef, ← hnd, ← hadj1, hfind]
  -- There is no link to the source, so nothing is disconnected.
  cases hf : nd.findLinkQuality src with
  | none =>
    have hno := (findLinkQuality_eq_none_iff hv).mp hf
    rw [NDescr.mapLink_of_not_mem hno]
    rfl
  -- The link is found and disconnected where it is.
  | some j =>
    obtain ⟨r, hr, hrsrc⟩ := (findLinkQuality_eq_some_iff hv).mp hf
    have hq : AdjList.link? adj1 ⟨v, nd.linklist.buf, j⟩ = some r :=
      link?_eq_some_iff.mpr ⟨nd, hv1, rfl, hr⟩
    simp only [Option.map_some, setCounterpart, except_bind_ok, modifyLink_of_link? hq]
    have hw := write_eq_modify_mapLink hv1 hv hr hrsrc nd.linklist.buf disconnect
    rw [hadj1, modify_insert] at hw
    rw [← hw]
    rfl

end

end Awds.Proofs
