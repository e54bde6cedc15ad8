import Awds.Proofs.Topology.Feed

/-!
# `Awds.Proofs.Topology.Entries`: what every run keeps of an entry

The operations change an entry in few ways. A new entry has no links and no name. The links of
an entry are written in place or dropped, and its validities and its route change. `feed` gives
it a new vector and a new name.

An `EntryInvariant` is a property of entries that all of these keep. It may depend on the
identity of the next vector. `entries_of_reachable` shows it for every entry behind every
sequence of events, those with malformed packets included.

Two such properties are that a vector has an identity below the next one (`Numbered`) and that a
name has at most 32 characters (`NamesFit`).
-/

set_option autoImplicit false

namespace Awds.Proofs

open Std (ExtTreeMap)
open Awds.Lib Awds.AdjList Awds.RTopology

/-! ### `feed` on a malformed packet -/

/-- What `feed` does with a packet that fails a size check. -/
theorem feed_malformed (st : Station) (now : AbsTime) (s : RTopology) {p : BasePacket}
    (hp : ¬ SizeOk p) :
    s.feed st now p =
      if s.locked = true ∨ p.size < TopoPacket.offsetLinks + 1 then .ok s
      else if TopoPacket.getValidity p ≤ 0 then .error .assertion
      else .ok ((s.getNodeEntry st now (SrcPacket.getSrc p)).swapLinks (SrcPacket.getSrc p)
        (now + TopoPacket.getValidity p) (List.replicate (TopoPacket.getNumLinks p) {})) := by
  unfold feed
  by_cases hlocked : s.locked = true
  · rw [if_pos hlocked, if_pos (.inl hlocked)]
  rw [if_neg hlocked]
  by_cases hheader : p.size < TopoPacket.offsetLinks + 1
  · rw [if_pos hheader, if_pos (.inr hheader)]
  rw [if_neg hheader, if_neg (not_or.mpr ⟨hlocked, hheader⟩)]
  simp only
  split
  · rfl
  · -- the header is there, so it is the second check that fails
    rw [if_pos (not_le.mp fun hlinks => hp ⟨not_lt.mp hheader, hlinks⟩)]

/-- The name in a packet fits into an entry. -/
theorem length_packetName_le {p : BasePacket} {name : List UInt8}
    (h : packetName p = some name) : name.length ≤ 32 := by
  unfold packetName at h
  simp only at h
  split at h
  · cases h
    refine (List.takeWhile_prefix _).length_le.trans ?_
    rw [Buffer.length_read]
    exact min_le_right _ _
  · cases h

/-! ### The map -/

/-- All entries have the property `Q`. -/
def Entries (Q : NDescr → Prop) (adj : AdjList) : Prop :=
  ∀ (u : NodeId) (nd : NDescr), adj[u]? = some nd → Q nd

namespace Entries

variable {Q : NDescr → Prop} {adj : AdjList}

/-- A change of one entry is harmless if it keeps the property of that entry. -/
theorem modify (h : Entries Q adj) (id : NodeId) {f : NDescr → NDescr}
    (hf : ∀ nd, Q nd → Q (f nd)) : Entries Q (adj.modify id f) := by
  intro u nd hu
  rw [getElem?_modifyAt] at hu
  split at hu
  · obtain ⟨n, hn, rfl⟩ := Option.map_eq_some_iff.mp hu
    exact hf n (h u n hn)
  · exact h u nd hu

/-- An entry that is inserted has to have the property, and the others are those of before. -/
theorem insert (h : Entries Q adj) (id : NodeId) {nd : NDescr} (hnd : Q nd) :
    Entries Q (adj.insert id nd) := by
  intro u n hu
  rw [getElem?_insertAt] at hu
  split at hu
  · cases hu
    exact hnd
  · exact h u n hu

/-- The entries that stay behind are entries of before. -/
theorem erase (h : Entries Q adj) (id : NodeId) : Entries Q (adj.erase id) := by
  intro u nd hu
  rw [getElem?_eraseAt] at hu
  split at hu
  · cases hu
  · exact h u nd hu

end Entries

/-- A property of entries that every operation keeps. The first argument is the identity of the
next vector. -/
structure EntryInvariant (Q : Nat → NDescr → Prop) : Prop where
  fresh : ∀ b nd, nd.links = [] → nd.nodeName = [] → Q b nd
  kept : ∀ b nd nd', Q b nd → nd'.linklist.buf = nd.linklist.buf → nd'.nodeName = nd.nodeName →
    (nd.links = [] → nd'.links = []) → Q b nd'
  later : ∀ b nd, Q b nd → Q (b + 1) nd
  swapped : ∀ b nd nd', Q b nd → nd'.linklist.buf = b → nd'.nodeName = nd.nodeName → Q (b + 1) nd'
  named : ∀ b nd name, Q b nd → name.length ≤ 32 → Q b { nd with nodeName := name }

/-- All entries of a state have the property. -/
def EntriesHold (Q : Nat → NDescr → Prop) (s : RTopology) : Prop := Entries (Q s.nextBuf) s.adjList

namespace EntryInvariant

section
variable {Q : Nat → NDescr → Prop} {b : Nat} {adj adj' : AdjList} (hQ : EntryInvariant Q)
include hQ

/-- The entry that `adjList[id]` finds or creates: an old one has the property already, and a new
one has neither links nor a name. -/
theorem entryOf (h : Entries (Q b) adj) (st : Station) (now : AbsTime) (id : NodeId) :
    Q b (entryOf st now adj id) := by
  unfold Awds.Proofs.entryOf
  cases hid : adj[id]? with
  | none => exact hQ.fresh b _ rfl rfl
  | some nd => exact h id nd hid

/-- The routes do not matter. -/
theorem of_sameGraph (h : Entries (Q b) adj) (hsame : SameGraph adj adj') :
    Entries (Q b) adj' := by
  intro u nd hu
  have hgraph := hsame u
  rw [hu, Option.map_some, eq_comm, Option.map_eq_some_iff] at hgraph
  obtain ⟨n, hn, hgraph⟩ := hgraph
  have hlist : nd.linklist = n.linklist := (congrArg NDescr.linklist hgraph).symm
  have hname : nd.nodeName = n.nodeName := (congrArg NDescr.nodeName hgraph).symm
  refine hQ.kept b n nd (h u n hn) (congrArg LinkList.buf hlist) hname fun hnil => ?_
  exact (congrArg LinkList.links hlist).trans hnil

/-- A write to a link keeps the vector, the name and the number of links of its entry. -/
theorem modifyLink {p : LinkPtr} {f : LinkQuality → LinkQuality} (h : Entries (Q b) adj)
    (hrun : adj.modifyLink p f = .ok adj') : Entries (Q b) adj' := by
  unfold AdjList.modifyLink at hrun
  split at hrun
  · cases hrun
  · cases hrun
    refine h.modify p.owner fun nd hnd => hQ.kept b nd _ hnd rfl rfl fun hnil => ?_
    show nd.links.modify p.idx f = []
    rw [hnil, List.modify_nil]

/-- `setCounterpart` writes to one link, or to the link and its new counterpart. -/
theorem setCounterpart {this : LinkPtr} {lq : Option LinkPtr} (h : Entries (Q b) adj)
    (hrun : adj.setCounterpart this lq = .ok adj') : Entries (Q b) adj' := by
  unfold AdjList.setCounterpart at hrun
  cases lq with
  | none => exact hQ.modifyLink h hrun
  | some q =>
    obtain ⟨adj1, h1, hrun⟩ := bind_eq_ok.mp hrun
    exact hQ.modifyLink (hQ.modifyLink h h1) hrun

/-- `removeReference` writes to the link and to its counterpart, or to neither. -/
theorem removeReference {this : LinkPtr} (h : Entries (Q b) adj)
    (hrun : adj.removeReference this = .ok adj') : Entries (Q b) adj' := by
  obtain ⟨l, -, hrun⟩ := bind_eq_ok.mp hrun
  split at hrun
  · cases hrun
    exact h
  · obtain ⟨adj1, h1, hrun⟩ := bind_eq_ok.mp hrun
    exact hQ.modifyLink (hQ.modifyLink h h1) hrun

/-- `set_metric_weight` writes to the link, and to its counterpart if it has one. -/
theorem setMetricWeight {this : LinkPtr} {mw : UInt32} (h : Entries (Q b) adj)
    (hrun : adj.setMetricWeight this mw = .ok adj') : Entries (Q b) adj' := by
  obtain ⟨adj1, h1, hrun⟩ := bind_eq_ok.mp hrun
  have hadj1 := hQ.modifyLink h h1
  obtain ⟨l, -, hrun⟩ := bind_eq_ok.mp hrun
  split at hrun
  · cases hrun
    exact hadj1
  · exact hQ.modifyLink hadj1 hrun

/-- `calculate` reads the two qualities and writes the weight, for every metric. -/
theorem calculate {m : Metric} {it : LinkPtr} (h : Entries (Q b) adj)
    (hrun : m.calculate adj it = .ok adj') : Entries (Q b) adj' := by
  obtain ⟨qualities, -, hrun⟩ := bind_eq_ok.mp hrun
  cases qualities with
  | none => exact hQ.setMetricWeight h hrun
  | some q =>
    obtain ⟨mw, -, hrun⟩ := bind_eq_ok.mp hrun
    exact hQ.setMetricWeight h hrun

/-- One turn of the cleanup: the links of a node are dropped, and the node. -/
theorem visit {t : AbsTime} {w w' : Sweep} {id : NodeId} (h : Entries (Q b) w.adj)
    (hrun : w.visit t id = .ok w') : Entries (Q b) w'.adj := by
  unfold Sweep.visit at hrun
  split at hrun
  · cases hrun
    exact h
  · rename_i nd hnd
    obtain ⟨w1, h1, hrun⟩ := bind_eq_ok.mp hrun
    cases hrun
    have hw1 : Entries (Q b) w1.adj := by
      unfold Sweep.dropEdges at h1
      split at h1
      · obtain ⟨adj, hadj, h1⟩ := bind_eq_ok.mp h1
        cases h1
        have hadj : Entries (Q b) adj :=
          foldlM_invariant _ _ _ (fun adj i adj' _ hb => hQ.removeReference hb) h hadj
        exact hadj.modify id fun nd hnd => hQ.kept b nd _ hnd rfl rfl fun _ => rfl
      · cases h1
        exact h
    unfold Sweep.dropNode
    split
    · exact hw1.erase id
    · exact hw1

end

/-! ### The state -/

section
variable {Q : Nat → NDescr → Prop} {st : Station} {now newValidity : AbsTime} {s s' : RTopology}
  {src : NodeId} (hQ : EntryInvariant Q)
include hQ

/-- `getNodeEntry` creates a missing entry at most. -/
theorem getNodeEntry (h : EntriesHold Q s) (st : Station) (now : AbsTime) (id : NodeId) :
    EntriesHold Q (s.getNodeEntry st now id) := by
  unfold EntriesHold
  rw [(getNodeEntry_frame st now s id).2.2.2, getNodeEntry_adjList]
  exact Entries.insert h id (hQ.entryOf h st now id)

/-- The new vector takes the next identity. -/
theorem swapLinks (h : EntriesHold Q s) (src : NodeId) (newValidity : AbsTime)
    (links : List LinkQuality) : EntriesHold Q (s.swapLinks src newValidity links) := by
  intro u nd hu
  show Q (s.nextBuf + 1) nd
  rw [RTopology.swapLinks, modifyNode, getElem?_modifyAt] at hu
  split at hu
  · obtain ⟨n, hn, rfl⟩ := Option.map_eq_some_iff.mp hu
    exact hQ.swapped s.nextBuf n _ (h u n hn) rfl (NDescr.nodeName_updateNodeValidity n newValidity)
  · exact hQ.later s.nextBuf nd (h u nd hu)

/-- A cleanup erases entries and takes references to their links out of other entries. -/
theorem removeOldNodes {next : AbsTime} (h : EntriesHold Q s)
    (hrun : s.removeOldNodes now = .ok (s', next)) : EntriesHold Q s' := by
  unfold RTopology.removeOldNodes at hrun
  split at hrun
  · cases hrun
  split at hrun
  · cases hrun
    exact h
  obtain ⟨w, hw, hrun⟩ := bind_eq_ok.mp hrun
  cases hrun
  have hadj : Entries (Q s.nextBuf) w.adj := by
    refine foldlM_invariant (P := fun w : Sweep => Entries (Q s.nextBuf) w.adj) _ _ _ ?_ ?_ hw
    · exact fun w id w' _ hb => hQ.visit hb
    · exact h
  split
  · unfold EntriesHold
    rw [emit_adjList, (emit_frame _ _).nextBuf]
    exact hadj
  · exact hadj

/-- A link that comes up can create the entry of its neighbour, raises the validity there and
connects the link with its reverse link. -/
theorem linkUp {buf i : Nat} {new : LinkQuality} (h : EntriesHold Q s)
    (hrun : s.linkUp st now newValidity src buf new i = .ok s') : EntriesHold Q s' := by
  obtain ⟨adj1, h1, hrun⟩ := bind_eq_ok.mp hrun
  obtain ⟨adj2, h2, hrun⟩ := bind_eq_ok.mp hrun
  cases hrun
  have hentry := hQ.getNodeEntry h st now new.neighbor
  have hraised : Entries (Q (s.getNodeEntry st now new.neighbor).nextBuf)
      ((s.getNodeEntry st now new.neighbor).modifyNode new.neighbor
        fun nd => nd.updateNodeValidity newValidity).adjList := by
    refine Entries.modify hentry new.neighbor fun nd hnd => ?_
    unfold NDescr.updateNodeValidity
    split
    · exact hQ.kept _ nd _ hnd rfl rfl id
    · exact hnd
  exact hQ.calculate (hQ.setCounterpart hraised h1) h2

/-- A link that goes down disconnects the reverse link. The access to the entry of its neighbour may
create it. -/
theorem linkDown {old : LinkQuality} (h : EntriesHold Q s)
    (hrun : s.linkDown st now src old = .ok s') : EntriesHold Q s' := by
  have hentry := hQ.getNodeEntry h st now old.neighbor
  unfold RTopology.linkDown at hrun
  simp only at hrun
  split at hrun
  · cases hrun
    exact hentry
  · obtain ⟨adj1, h1, hrun⟩ := bind_eq_ok.mp hrun
    cases hrun
    exact hQ.setCounterpart hentry h1

/-- The three steps of the merge. A link that stays is connected anew like one that comes up, with
the quality of the packet. -/
theorem mergeStep {buf : Nat} {op : MergeOp} (h : EntriesHold Q s)
    (hrun : s.mergeStep st now newValidity src buf op = .ok s') : EntriesHold Q s' := by
  cases op with
  | kept new old =>
    obtain ⟨s1, h1, hrun⟩ := bind_eq_ok.mp hrun
    cases hrun
    have hs1 : EntriesHold Q s1 := hQ.linkUp h h1
    exact hs1
  | added new =>
    obtain ⟨s1, h1, hrun⟩ := bind_eq_ok.mp hrun
    cases hrun
    have hs1 : EntriesHold Q s1 := hQ.linkUp h h1
    exact hs1
  | removed old =>
    obtain ⟨s1, h1, hrun⟩ := bind_eq_ok.mp hrun
    cases hrun
    have hs1 : EntriesHold Q s1 := hQ.linkDown h h1
    exact hs1

/-- The merge goes through its steps one by one (`foldlM_invariant`), from the state with the
swapped vectors. Behind it the name of the source is the one in the packet, or the old one. -/
theorem mergeLinks {p : BasePacket} {links : List LinkQuality} (h : EntriesHold Q s)
    (hrun : s.mergeLinks st now newValidity p links = .ok s') : EntriesHold Q s' := by
  obtain ⟨s1, h1, hrun⟩ := bind_eq_ok.mp hrun
  cases hrun
  have hs1 : EntriesHold Q s1 := foldlM_invariant _ _ _ (fun s op s' _ hs => hQ.mergeStep hs)
    (hQ.swapLinks h _ _ _) h1
  show EntriesHold Q (finishMerge (SrcPacket.getSrc p) p _ s1)
  unfold EntriesHold
  rw [(finishMerge_frame _ _ _ _).nextBuf, finishMerge_adjList]
  intro u nd hu
  rw [updateName_lookup] at hu
  split at hu
  · obtain ⟨n, hn, rfl⟩ := Option.map_eq_some_iff.mp hu
    -- the name is the one in the packet, or the old one
    unfold nameBehind
    cases hname : packetName p with
    | none => exact hs1 u n hn
    | some name => exact hQ.named _ n name (hs1 u n hn) (length_packetName_le hname)
  · exact hs1 u nd hu

/-- `invalidate` sets back validities, which are no part of the property. -/
theorem invalidate (h : EntriesHold Q s) (st : Station) (t : AbsTime) :
    EntriesHold Q (RTopology.invalidate st t s) := by
  intro u nd hu
  rw [RTopology.invalidate, getElem?_mapEntries, Option.map_eq_some_iff] at hu
  obtain ⟨n, hn, rfl⟩ := hu
  split
  · exact hQ.kept _ n _ (h u n hn) rfl rfl id
  · exact h u n hn

/-- Every event keeps the invariant. `feed` on a packet that has its header is the only one that
makes vectors and names, and the lemmas above go through its parts. -/
theorem exec {e : Event} (h : EntriesHold Q s) (hrun : s.exec st e = .ok s') :
    EntriesHold Q s' := by
  by_cases he : FeedsSized e
  · refine exec_keeps (P := EntriesHold Q) (fun s id hs => hQ.getNodeEntry hs st e.now id)
      (fun s p links s' hs _ _ _ _ => hQ.mergeLinks hs) (fun s s' next hs => hQ.removeOldNodes hs)
      (fun s adj hs hroutes => hQ.of_sameGraph hs (calcRoutes_sameGraph hroutes))
      (fun t s _ hs => ?_) (fun s b hs => hs) (fun s hs => hs) h he hrun
    have hdirty : EntriesHold Q { s with dirty := true } := hs
    exact hQ.invalidate hdirty st t
  · -- the event is a feed of a malformed packet
    unfold FeedsSized at he
    push Not at he
    obtain ⟨p, hop, hp⟩ := he
    obtain ⟨now, op⟩ := e
    cases hop
    have hrun : s.feed st now p = .ok s' := hrun
    rw [feed_malformed st now s hp] at hrun
    split at hrun
    · cases hrun
      exact h
    split at hrun
    · cases hrun
    · cases hrun
      exact hQ.swapLinks (hQ.getNodeEntry h st now _) _ _ _

end

end EntryInvariant

/-! ### Every run -/

/-- The property holds of every entry behind any sequence of events. -/
theorem entries_of_reachable {Q : Nat → NDescr → Prop} (hQ : EntryInvariant Q) {st : Station}
    {ok : RTopology → Event → Prop} {s : RTopology} (h : Reachable st ok s) : EntriesHold Q s := by
  refine h.invariant (fun t u nd hu => ?_) fun s e s' hs _ hrun => hQ.exec hs hrun
  rw [init, getElem?_insertAt] at hu
  split at hu
  · cases hu
    exact hQ.fresh _ _ rfl rfl
  · simp at hu

/-- The identity of the next vector is not in use. -/
def Numbered (s : RTopology) : Prop :=
  Entries (fun nd => nd.links ≠ [] → nd.linklist.buf < s.nextBuf) s.adjList

/-- In every run no vector has the identity that the next one will get. -/
theorem numbered_of_reachable {st : Station} {ok : RTopology → Event → Prop} {s : RTopology}
    (h : Reachable st ok s) : Numbered s := by
  refine entries_of_reachable (Q := fun b nd => nd.links ≠ [] → nd.linklist.buf < b) ?_ h
  exact {
    fresh := fun b nd hnil _ hne => absurd hnil hne
    kept := fun b nd nd' hnd hbuf _ hlinks hne => hbuf ▸ hnd fun hnil => hne (hlinks hnil)
    later := fun b nd hnd hne => Nat.lt_succ_of_lt (hnd hne)
    swapped := fun b nd nd' _ hbuf _ _ => hbuf ▸ Nat.lt_succ_self nd'.linklist.buf
    named := fun b nd name hnd _ => hnd }

/-- The names are no longer than the array that holds them. -/
def NamesFit (adj : AdjList) : Prop := Entries (fun nd => nd.nodeName.length ≤ 32) adj

/-- In every run the names fit into the array of an entry, because `feed` cuts them to its length.
-/
theorem namesFit_of_reachable {st : Station} {ok : RTopology → Event → Prop} {s : RTopology}
    (h : Reachable st ok s) : NamesFit s.adjList := by
  refine entries_of_reachable (Q := fun _ nd => nd.nodeName.length ≤ 32) ?_ h
  exact {
    fresh := fun b nd _ hname => by rw [hname]; exact Nat.zero_le 32
    kept := fun b nd nd' hnd _ hname _ => hname ▸ hnd
    later := fun b nd hnd => hnd
    swapped := fun b nd nd' hnd _ hname => hname ▸ hnd
    named := fun b nd name _ hlen => hlen }

end Awds.Proofs
