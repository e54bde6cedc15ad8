import Mathlib

/-!
# `Awds.Lib.SortedMerge`: the difference of two sorted lists

`threeWay` walks two lists side by side and compares the keys at their heads. An element
of the new list whose key heads both lists is `kept`, a smaller new key is `added`, and a
smaller old key is `removed`. The walk ends when both lists are used up.

On lists with strictly ascending keys the result is the difference of the two lists:
`mem_threeWay_kept`, `mem_threeWay_added` and `mem_threeWay_removed` say which entries it
holds, and `pairwise_threeWay` says that their keys ascend strictly, so that every key has
at most one entry.
-/

set_option autoImplicit false

namespace Awds.Lib

variable {α β κ : Type}

/-- One entry of the difference of a new and an old list. -/
inductive Diff (α β : Type) where
  | kept (new : α) (old : β)
  | added (new : α)
  | removed (old : β)

namespace Diff

/-- The key of an entry. A kept entry has the same key in both lists. -/
def key (ka : α → κ) (kb : β → κ) : Diff α β → κ
  | kept new _ => ka new
  | added new => ka new
  | removed old => kb old

/-- The new element of an entry, if it has one. -/
def new? : Diff α β → Option α
  | kept new _ => some new
  | added new => some new
  | removed _ => none

/-- The old element of an entry, if it has one. -/
def old? : Diff α β → Option β
  | kept _ old => some old
  | added _ => none
  | removed old => some old

end Diff

section
variable [LinearOrder κ] (ka : α → κ) (kb : β → κ)

/-- The part of the walk in which the new list starts with `a`. `rest` is the walk for the
new list behind `a`. -/
def threeWayFrom (a : α) (rest : List β → List (Diff α β)) : List β → List (Diff α β)
  | [] => .added a :: rest []
  | b :: bs =>
    if ka a = kb b then .kept a b :: rest bs
    else if ka a < kb b then .added a :: rest (b :: bs)
    else .removed b :: threeWayFrom a rest bs

/-- The difference of a new and an old list. -/
def threeWay : List α → List β → List (Diff α β)
  | [] => fun bs => bs.map .removed
  | a :: as => threeWayFrom ka kb a (threeWay as)

/-- The lists have strictly ascending keys. -/
def Ascending (k : α → κ) (l : List α) : Prop :=
  l.Pairwise fun x y => k x < k y

variable {ka kb}

/-- A walk through `a :: as` and `bs` can be followed entry by entry. -/
theorem threeWay_induct (ka : α → κ) (kb : β → κ) {P : List α → List β → Prop}
    (nil : ∀ bs, P [] bs)
    (last : ∀ a as, P as [] → P (a :: as) [])
    (kept : ∀ a as b bs, ka a = kb b → P as bs → P (a :: as) (b :: bs))
    (added : ∀ a as b bs, ka a < kb b → P as (b :: bs) → P (a :: as) (b :: bs))
    (removed : ∀ a as b bs, kb b < ka a → P (a :: as) bs → P (a :: as) (b :: bs)) :
    ∀ as bs, P as bs := by
  intro as
  induction as with
  | nil => exact nil
  | cons a as ih =>
    intro bs
    induction bs with
    | nil => exact last a as (ih [])
    | cons b bs ihb =>
      rcases lt_trichotomy (ka a) (kb b) with h | h | h
      · exact added a as b bs h (ih _)
      · exact kept a as b bs h (ih _)
      · exact removed a as b bs h ihb

/-- Without a new list all old elements are removed. -/
@[simp] theorem threeWay_nil (bs : List β) :
    threeWay ka kb ([] : List α) bs = bs.map .removed := rfl

/-- Without old elements the new ones are added. -/
@[simp] theorem threeWay_cons_nil (a : α) (as : List α) :
    threeWay ka kb (a :: as) ([] : List β) = .added a :: threeWay ka kb as [] := rfl

/-- Equal keys keep the element. -/
theorem threeWay_kept {a : α} {as : List α} {b : β} {bs : List β} (h : ka a = kb b) :
    threeWay ka kb (a :: as) (b :: bs) = .kept a b :: threeWay ka kb as bs := by
  simp [threeWay, threeWayFrom, h]

/-- The smaller key is new: it is added. -/
theorem threeWay_added {a : α} {as : List α} {b : β} {bs : List β} (h : ka a < kb b) :
    threeWay ka kb (a :: as) (b :: bs) = .added a :: threeWay ka kb as (b :: bs) := by
  simp [threeWay, threeWayFrom, h, h.ne]

/-- The smaller key is old: it is removed. -/
theorem threeWay_removed {a : α} {as : List α} {b : β} {bs : List β} (h : kb b < ka a) :
    threeWay ka kb (a :: as) (b :: bs) = .removed b :: threeWay ka kb (a :: as) bs := by
  simp [threeWay, threeWayFrom, h.ne', h.not_gt]

/-- Every new element occurs in exactly the entries the walk made for it: the new elements
of the entries are the new list. -/
theorem filterMap_new_threeWay (ka : α → κ) (kb : β → κ) (as : List α) (bs : List β) :
    (threeWay ka kb as bs).filterMap Diff.new? = as := by
  refine threeWay_induct ka kb (P := fun as bs => (threeWay ka kb as bs).filterMap Diff.new? = as)
    ?_ ?_ ?_ ?_ ?_ as bs
  · intro bs
    induction bs with
    | nil => rfl
    | cons b bs ih => simp [Diff.new?]
  · intro a as ih
    simp [Diff.new?, ih]
  · intro a as b bs h ih
    simp [threeWay_kept h, Diff.new?, ih]
  · intro a as b bs h ih
    simp [threeWay_added h, Diff.new?, ih]
  · intro a as b bs h ih
    simpa [threeWay_removed h, List.filterMap_cons, Diff.new?] using ih

/-- The old elements of the entries are the old list. -/
theorem filterMap_old_threeWay (ka : α → κ) (kb : β → κ) (as : List α) (bs : List β) :
    (threeWay ka kb as bs).filterMap Diff.old? = bs := by
  refine threeWay_induct ka kb (P := fun as bs => (threeWay ka kb as bs).filterMap Diff.old? = bs)
    ?_ ?_ ?_ ?_ ?_ as bs
  · intro bs
    induction bs with
    | nil => rfl
    | cons b bs ih => simpa [Diff.old?] using ih
  · intro a as ih
    rw [threeWay_cons_nil, List.filterMap_cons]
    exact ih
  · intro a as b bs h ih
    simp [threeWay_kept h, Diff.old?, ih]
  · intro a as b bs h ih
    simpa [threeWay_added h, List.filterMap_cons, Diff.old?] using ih
  · intro a as b bs h ih
    simp [threeWay_removed h, Diff.old?, ih]

/-- A kept entry has one key. -/
theorem key_eq_of_kept (as : List α) (bs : List β) :
    ∀ a b, .kept a b ∈ threeWay ka kb as bs → ka a = kb b := by
  refine threeWay_induct ka kb
    (P := fun as bs => ∀ a b, .kept a b ∈ threeWay ka kb as bs → ka a = kb b)
    ?_ ?_ ?_ ?_ ?_ as bs
  · intro bs a b h
    simp at h
  · intro a as ih x y h
    simp at h
    exact ih x y h
  · intro a as b bs hab ih x y h
    rw [threeWay_kept hab] at h
    rcases List.mem_cons.mp h with h | h
    · cases h
      exact hab
    · exact ih x y h
  · intro a as b bs hab ih x y h
    rw [threeWay_added hab] at h
    exact ih x y (by simpa using h)
  · intro a as b bs hab ih x y h
    rw [threeWay_removed hab] at h
    exact ih x y (by simpa using h)

/-- The key of an entry occurs in one of the two lists. -/
theorem key_mem_of_mem_threeWay {as : List α} {bs : List β} {d : Diff α β}
    (h : d ∈ threeWay ka kb as bs) :
    (∃ a ∈ as, ka a = d.key ka kb) ∨ ∃ b ∈ bs, kb b = d.key ka kb := by
  cases d with
  | kept a b =>
    refine .inl ⟨a, ?_, rfl⟩
    rw [← filterMap_new_threeWay ka kb as bs]
    exact List.mem_filterMap.mpr ⟨_, h, rfl⟩
  | added a =>
    refine .inl ⟨a, ?_, rfl⟩
    rw [← filterMap_new_threeWay ka kb as bs]
    exact List.mem_filterMap.mpr ⟨_, h, rfl⟩
  | removed b =>
    refine .inr ⟨b, ?_, rfl⟩
    rw [← filterMap_old_threeWay ka kb as bs]
    exact List.mem_filterMap.mpr ⟨_, h, rfl⟩

/-- On ascending lists the keys of the entries ascend strictly. -/
theorem pairwise_threeWay (as : List α) (bs : List β) :
    Ascending ka as → Ascending kb bs →
      Ascending (Diff.key ka kb) (threeWay ka kb as bs) := by
  unfold Ascending
  refine threeWay_induct ka kb
    (P := fun as bs => as.Pairwise (fun x y => ka x < ka y) →
      bs.Pairwise (fun x y => kb x < kb y) →
      (threeWay ka kb as bs).Pairwise fun x y => x.key ka kb < y.key ka kb)
    ?_ ?_ ?_ ?_ ?_ as bs
  · intro bs _ hb
    rw [threeWay_nil, List.pairwise_map]
    exact hb
  · intro a as ih ha hb
    rw [List.pairwise_cons] at ha
    rw [threeWay_cons_nil, List.pairwise_cons]
    refine ⟨fun d hd => ?_, ih ha.2 hb⟩
    -- Without old elements only new ones follow.
    rcases key_mem_of_mem_threeWay hd with ⟨x, hx, hk⟩ | ⟨y, hy, -⟩
    · exact hk ▸ ha.1 x hx
    · simp at hy
  · intro a as b bs hab ih ha hb
    rw [List.pairwise_cons] at ha hb
    rw [threeWay_kept hab, List.pairwise_cons]
    refine ⟨fun d hd => ?_, ih ha.2 hb.2⟩
    rcases key_mem_of_mem_threeWay hd with ⟨x, hx, hk⟩ | ⟨y, hy, hk⟩
    · exact hk ▸ ha.1 x hx
    · have : kb b < kb y := hb.1 y hy
      exact hk ▸ (show ka a < kb y from hab ▸ this)
  · -- `a` goes first, and `b`, which stays, is above it.
    intro a as b bs hab ih ha hb
    rw [List.pairwise_cons] at ha
    rw [threeWay_added hab, List.pairwise_cons]
    refine ⟨fun d hd => ?_, ih ha.2 hb⟩
    rcases key_mem_of_mem_threeWay hd with ⟨x, hx, hk⟩ | ⟨y, hy, hk⟩
    · exact hk ▸ ha.1 x hx
    · rcases List.mem_cons.mp hy with rfl | hy
      · exact hk ▸ hab
      · exact hk ▸ hab.trans ((List.pairwise_cons.mp hb).1 y hy)
  · -- The same with `a` and `b` exchanged.
    intro a as b bs hab ih ha hb
    rw [List.pairwise_cons] at hb
    rw [threeWay_removed hab, List.pairwise_cons]
    refine ⟨fun d hd => ?_, ih ha hb.2⟩
    rcases key_mem_of_mem_threeWay hd with ⟨x, hx, hk⟩ | ⟨y, hy, hk⟩
    · rcases List.mem_cons.mp hx with rfl | hx
      · exact hk ▸ hab
      · exact hk ▸ hab.trans ((List.pairwise_cons.mp ha).1 x hx)
    · exact hk ▸ hb.1 y hy

/-- A list with ascending keys has one entry for a key. -/
theorem Ascending.eq_of_key_eq {γ : Type} {k : γ → κ} {l : List γ} (h : Ascending k l)
    {x y : γ} (hx : x ∈ l) (hy : y ∈ l) (hk : k x = k y) : x = y := by
  induction l with
  | nil => simp at hx
  | cons z zs ih =>
    unfold Ascending at h
    rw [List.pairwise_cons] at h
    rcases List.mem_cons.mp hx with hxz | hxs <;> rcases List.mem_cons.mp hy with hyz | hys
    · rw [hxz, hyz]
    · exact absurd hk (hxz ▸ h.1 y hys).ne
    · exact absurd hk (hyz ▸ h.1 x hxs).ne'
    · exact ih h.2 hxs hys

/-- On ascending lists, a new element is kept exactly when its key is in the old list. -/
theorem mem_threeWay_kept {as : List α} {bs : List β} (ha : Ascending ka as)
    (hb : Ascending kb bs) {a : α} {b : β} :
    .kept a b ∈ threeWay ka kb as bs ↔ a ∈ as ∧ b ∈ bs ∧ ka a = kb b := by
  constructor
  · intro h
    refine ⟨?_, ?_, key_eq_of_kept as bs a b h⟩
    · rw [← filterMap_new_threeWay ka kb as bs]
      exact List.mem_filterMap.mpr ⟨_, h, rfl⟩
    · rw [← filterMap_old_threeWay ka kb as bs]
      exact List.mem_filterMap.mpr ⟨_, h, rfl⟩
  · rintro ⟨haas, hbbs, hk⟩
    -- `a` and `b` each have an entry; both entries have the same key, so they are one.
    have hasc := pairwise_threeWay as bs ha hb
    rw [← filterMap_new_threeWay ka kb as bs, List.mem_filterMap] at haas
    rw [← filterMap_old_threeWay ka kb as bs, List.mem_filterMap] at hbbs
    obtain ⟨d, hd, hda⟩ := haas
    obtain ⟨e, he, heb⟩ := hbbs
    have hkd : d.key ka kb = ka a := by cases d <;> simp_all [Diff.new?, Diff.key]
    have hke : e.key ka kb = kb b := by
      cases e with
      | kept x y =>
        have := key_eq_of_kept as bs x y he
        simp_all [Diff.old?, Diff.key]
      | added x => simp [Diff.old?] at heb
      | removed y => simp_all [Diff.old?, Diff.key]
    have hde : d = e := hasc.eq_of_key_eq hd he (by rw [hkd, hke, hk])
    subst hde
    cases d with
    | kept x y => simp_all [Diff.new?, Diff.old?]
    | added x => simp [Diff.old?] at heb
    | removed y => simp [Diff.new?] at hda

/-- On ascending lists, a new element is added exactly when its key is not in the old
list. -/
theorem mem_threeWay_added {as : List α} {bs : List β} (ha : Ascending ka as)
    (hb : Ascending kb bs) {a : α} :
    .added a ∈ threeWay ka kb as bs ↔ a ∈ as ∧ ∀ b ∈ bs, ka a ≠ kb b := by
  constructor
  · intro h
    refine ⟨?_, fun b hbb hk => ?_⟩
    · rw [← filterMap_new_threeWay ka kb as bs]
      exact List.mem_filterMap.mpr ⟨_, h, rfl⟩
    · have haas : a ∈ as := by
        rw [← filterMap_new_threeWay ka kb as bs]
        exact List.mem_filterMap.mpr ⟨_, h, rfl⟩
      -- An old element with this key would be kept, and no key comes twice in the result.
      have hkept := (mem_threeWay_kept ha hb).mpr ⟨haas, hbb, hk⟩
      have := (pairwise_threeWay as bs ha hb).eq_of_key_eq h hkept rfl
      cases this
  · rintro ⟨haas, hne⟩
    rw [← filterMap_new_threeWay ka kb as bs, List.mem_filterMap] at haas
    obtain ⟨d, hd, hda⟩ := haas
    cases d with
    | kept x y =>
      cases hda
      have := (mem_threeWay_kept ha hb).mp hd
      exact absurd this.2.2 (hne y this.2.1)
    | added x =>
      cases hda
      exact hd
    | removed y => simp [Diff.new?] at hda

/-- On ascending lists, an old element is removed exactly when its key is not in the new
list. -/
theorem mem_threeWay_removed {as : List α} {bs : List β} (ha : Ascending ka as)
    (hb : Ascending kb bs) {b : β} :
    .removed b ∈ threeWay ka kb as bs ↔ b ∈ bs ∧ ∀ a ∈ as, ka a ≠ kb b := by
  constructor
  · intro h
    have hbbs : b ∈ bs := by
      rw [← filterMap_old_threeWay ka kb as bs]
      exact List.mem_filterMap.mpr ⟨_, h, rfl⟩
    refine ⟨hbbs, fun a haas hk => ?_⟩
    have hkept := (mem_threeWay_kept ha hb).mpr ⟨haas, hbbs, hk⟩
    have := (pairwise_threeWay as bs ha hb).eq_of_key_eq h hkept hk.symm
    cases this
  · rintro ⟨hbbs, hne⟩
    rw [← filterMap_old_threeWay ka kb as bs, List.mem_filterMap] at hbbs
    obtain ⟨d, hd, hdb⟩ := hbbs
    cases d with
    | kept x y =>
      cases hdb
      have := (mem_threeWay_kept ha hb).mp hd
      exact absurd this.2.2 (hne x this.1)
    | added x => simp [Diff.old?] at hdb
    | removed y =>
      cases hdb
      exact hd

end

end Awds.Lib
