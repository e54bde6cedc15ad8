import Mathlib.Data.List.Basic

/-!
# `Awds.Lib.Traced`: computations with a trace

A computation that can fail and leaves a list of events, the ones in front of a failure
included. `Traced.all_bind` is the rule for a property of all events of a sequence, and
`Traced.Ensures.bind` the one for a property of its events and a postcondition.

`UsedOnce used es` says that a resource is used up by the last event of `es` and by no other
one: it is used up exactly once and is not touched behind that. In front of the using event a
sequence may do everything that does not use the resource (`usedOnce_bind_of_spares`), and
behind it nothing (`usedOnce_bind_of_uses`). `Attempt` is for a sequence of ways to use it up,
each of which is tried if the one before it has no result.
-/

set_option autoImplicit false

namespace Awds.Lib

/-- A computation with events in `ω` and errors in `ε`. -/
structure Traced (ω ε α : Type) where
  events : List ω
  result : Except ε α

namespace Traced

variable {ω ε α β : Type}

/-- Events without a result. -/
def emit (es : List ω) : Traced ω ε Unit := ⟨es, .ok ()⟩

/-- A computation without events. -/
def lift (x : Except ε α) : Traced ω ε α := ⟨[], x⟩

instance : Monad (Traced ω ε) where
  pure a := ⟨[], .ok a⟩
  bind x f := match x.result with
    | .error e => ⟨x.events, .error e⟩
    | .ok a => ⟨x.events ++ (f a).events, (f a).result⟩

/-- A value has no events. -/
@[simp] theorem events_pure (a : α) : (pure a : Traced ω ε α).events = [] := rfl

@[simp] theorem result_pure (a : α) : (pure a : Traced ω ε α).result = .ok a := rfl

@[simp] theorem events_emit (es : List ω) : (emit es : Traced ω ε Unit).events = es := rfl

@[simp] theorem result_emit (es : List ω) : (emit es : Traced ω ε Unit).result = .ok () := rfl

@[simp] theorem events_lift (x : Except ε α) : (lift x : Traced ω ε α).events = [] := rfl

@[simp] theorem result_lift (x : Except ε α) : (lift x : Traced ω ε α).result = x := rfl

variable {x : Traced ω ε α} {f : α → Traced ω ε β} {a : α} {e : ε}

/-- The events of the second part follow those of the first one. -/
theorem events_bind_of_ok (h : x.result = .ok a) :
    (x >>= f).events = x.events ++ (f a).events := by
  simp [Bind.bind, h]

/-- The result of a sequence is the one of its second part, if there is one. -/
theorem result_bind_of_ok (h : x.result = .ok a) : (x >>= f).result = (f a).result := by
  simp [Bind.bind, h]

/-- Behind an error nothing happens any more. -/
theorem events_bind_of_error (h : x.result = .error e) : (x >>= f).events = x.events := by
  simp [Bind.bind, h]

/-- The error of the first part is the error of the sequence. -/
theorem result_bind_of_error (h : x.result = .error e) : (x >>= f).result = .error e := by
  simp [Bind.bind, h]

/-- The results alone are computed as if there were no events. Untraced models are compared with
traced ones by this. -/
theorem result_bind (x : Traced ω ε α) (f : α → Traced ω ε β) :
    (x >>= f).result = x.result >>= fun a => (f a).result := by
  cases h : x.result with
  | error e => exact result_bind_of_error h
  | ok a => exact result_bind_of_ok h

@[simp] theorem events_emit_bind (es : List ω) (f : Unit → Traced ω ε β) :
    (emit es >>= f).events = es ++ (f ()).events := rfl

@[simp] theorem result_emit_bind (es : List ω) (f : Unit → Traced ω ε β) :
    (emit es >>= f).result = (f ()).result := rfl

@[simp] theorem events_ok_bind (es : List ω) (a : α) (f : α → Traced ω ε β) :
    ((⟨es, .ok a⟩ : Traced ω ε α) >>= f).events = es ++ (f a).events := rfl

/-- A sequence has events if its first part has. -/
theorem events_bind_ne_nil (h : x.events ≠ []) : (x >>= f).events ≠ [] := by
  cases hx : x.result with
  | error e => rwa [events_bind_of_error hx]
  | ok a =>
    rw [events_bind_of_ok hx]
    exact List.append_ne_nil_of_left_ne_nil h _

/-- A computation without events that returns a value can be left out. -/
theorem lift_bind_of_ok {y : Except ε α} (h : y = .ok a) (f : α → Traced ω ε β) :
    lift y >>= f = f a := by
  subst h
  rfl

/-! ### Properties of all events -/

/-- Every event has the property. -/
def All (P : ω → Prop) (x : Traced ω ε α) : Prop := ∀ e ∈ x.events, P e

variable {P : ω → Prop}

/-- A value has no events that could fail the property. -/
@[simp] theorem all_pure : All P (pure a : Traced ω ε α) := by simp [All]

/-- Nor has a computation that was lifted. -/
@[simp] theorem all_lift (y : Except ε α) : All P (lift y : Traced ω ε α) := by simp [All]

/-- Emitted events have the property if each of them has. -/
@[simp] theorem all_emit {es : List ω} : All P (emit es : Traced ω ε Unit) ↔ ∀ e ∈ es, P e :=
  Iff.rfl

/-- The events of a sequence have the property if those of the first part have, and those of the
second part for each value that the first one can return. -/
theorem all_bind : All P (x >>= f) ↔ All P x ∧ ∀ a, x.result = .ok a → All P (f a) := by
  unfold All
  cases h : x.result with
  | error e => simp [events_bind_of_error h]
  | ok a =>
    simp only [events_bind_of_ok h, List.mem_append, Except.ok.injEq]
    constructor
    · intro hall
      exact ⟨fun e he => hall e (.inl he), by rintro _ rfl e he; exact hall e (.inr he)⟩
    · rintro ⟨hx, hf⟩ e (he | he)
      · exact hx e he
      · exact hf a rfl e he

/-- The same rule for events that are emitted in front of a computation. -/
theorem all_emit_bind {es : List ω} {f : Unit → Traced ω ε β} :
    All P (emit es >>= f) ↔ (∀ e ∈ es, P e) ∧ All P (f ()) := by
  unfold All
  simp [or_imp, forall_and]

/-! ### Events and results -/

variable {Q : α → Prop} {R : β → Prop}

/-- Every event has the property `P`, and the result, if there is one, has the property `Q`. -/
def Ensures (P : ω → Prop) (Q : α → Prop) (x : Traced ω ε α) : Prop :=
  All P x ∧ ∀ a, x.result = .ok a → Q a

/-- A value has the property of results itself. -/
theorem ensures_pure (h : Q a) : Ensures P Q (pure a : Traced ω ε α) :=
  ⟨all_pure, fun _ hb => Except.ok.inj hb ▸ h⟩

/-- A lifted computation has to ensure the property of its results only. -/
theorem ensures_lift {y : Except ε α} (h : ∀ a, y = .ok a → Q a) :
    Ensures P Q (lift y : Traced ω ε α) := ⟨all_lift y, h⟩

/-- The rule for sequences: what the first part ensures of its value may be used for the second
part. -/
theorem Ensures.bind (hx : Ensures P Q x) (hf : ∀ a, Q a → Ensures P R (f a)) :
    Ensures P R (x >>= f) := by
  refine ⟨all_bind.mpr ⟨hx.1, fun a ha => (hf a (hx.2 a ha)).1⟩, fun c hc => ?_⟩
  cases hres : x.result with
  | error e =>
    rw [result_bind_of_error hres] at hc
    cases hc
  | ok a =>
    rw [result_bind_of_ok hres] at hc
    exact (hf a (hx.2 a hres)).2 c hc

end Traced

/-! ### Using a resource once -/

section UsedOnce

variable {ω ε α β : Type} {used : ω → Prop} {as bs : List ω}

/-- The last event uses the resource up, and no other one does. -/
def UsedOnce (used : ω → Prop) (es : List ω) : Prop :=
  ∃ front last, es = front ++ [last] ∧ used last ∧ ∀ e ∈ front, ¬used e

/-- Events that do not use the resource up do not use it up once. -/
theorem not_usedOnce_of_spares (h : ∀ e ∈ as, ¬used e) : ¬UsedOnce used as := by
  rintro ⟨front, last, rfl, hlast, -⟩
  exact h last (by simp) hlast

/-- A single event that uses the resource up. -/
theorem usedOnce_singleton {e : ω} (h : used e) : UsedOnce used [e] :=
  ⟨[], e, rfl, h, by simp⟩

/-- The number of uses is one, for properties that are stated by counting. -/
theorem UsedOnce.countP_eq_one [DecidablePred used] (h : UsedOnce used as) :
    as.countP (fun e => decide (used e)) = 1 := by
  obtain ⟨front, last, rfl, hlast, hfront⟩ := h
  have hnone : front.countP (fun e => decide (used e)) = 0 := by simpa using hfront
  simp [hnone, hlast]

/-- Events that do not use the resource may stand in front. -/
theorem usedOnce_append_of_spares (h : ∀ e ∈ as, ¬used e) :
    UsedOnce used (as ++ bs) ↔ UsedOnce used bs := by
  constructor
  · rintro ⟨front, last, heq, hlast, hfront⟩
    -- The last event is one of `bs`.
    rcases List.eq_nil_or_concat bs with rfl | ⟨bs', b, rfl⟩
    · rw [List.append_nil] at heq
      exact absurd hlast (h last (by simp [heq]))
    · rw [List.concat_eq_append, ← List.append_assoc] at heq
      obtain ⟨rfl, hb⟩ := List.append_inj' heq rfl
      rw [List.singleton_inj] at hb
      refine ⟨bs', b, List.concat_eq_append, hb ▸ hlast, fun e he => hfront e ?_⟩
      exact List.mem_append_right _ he
  · rintro ⟨front, last, rfl, hlast, hfront⟩
    refine ⟨as ++ front, last, (List.append_assoc _ _ _).symm, hlast, fun e he => ?_⟩
    rcases List.mem_append.mp he with he | he
    · exact h e he
    · exact hfront e he

/-- Nothing may stand behind an event that uses the resource. -/
theorem usedOnce_append_of_uses (h : ∃ e ∈ as, used e) :
    UsedOnce used (as ++ bs) ↔ UsedOnce used as ∧ bs = [] := by
  constructor
  · rintro ⟨front, last, heq, hlast, hfront⟩
    rcases List.eq_nil_or_concat bs with rfl | ⟨bs', b, rfl⟩
    · exact ⟨⟨front, last, by simpa using heq, hlast, hfront⟩, rfl⟩
    · rw [List.concat_eq_append, ← List.append_assoc] at heq
      obtain ⟨rfl, -⟩ := List.append_inj' heq rfl
      obtain ⟨e, he, hused⟩ := h
      exact absurd hused (hfront e (List.mem_append_left _ he))
  · rintro ⟨has, rfl⟩
    rwa [List.append_nil]

variable {x : Traced ω ε α} {f : α → Traced ω ε β}

/-- A sequence whose first part does not use the resource. -/
theorem usedOnce_bind_of_spares (h : x.All fun e => ¬used e) :
    UsedOnce used (x >>= f).events ↔ ∃ a, x.result = .ok a ∧ UsedOnce used (f a).events := by
  cases hx : x.result with
  | error e =>
    rw [Traced.events_bind_of_error hx]
    exact iff_of_false (not_usedOnce_of_spares h) (by simp)
  | ok a =>
    rw [Traced.events_bind_of_ok hx, usedOnce_append_of_spares h]
    simp

/-- A sequence whose first part uses the resource. -/
theorem usedOnce_bind_of_uses (h : ∃ e ∈ x.events, used e) :
    UsedOnce used (x >>= f).events ↔
      UsedOnce used x.events ∧ ∀ a, x.result = .ok a → (f a).events = [] := by
  cases hx : x.result with
  | error e =>
    rw [Traced.events_bind_of_error hx]
    simp
  | ok a =>
    rw [Traced.events_bind_of_ok hx, usedOnce_append_of_uses h]
    simp

/-! ### Attempts -/

variable {σ γ : Type}

/-- A computation that may use the resource up, and a model of it. The computation goes on if
the use fails, but the resource is gone then: the model ends with an error. -/
inductive Attempt (used : ω → Prop) (x : Traced ω ε (σ × Option β)) :
    Except ε (σ × Option β) → Prop
  | fails {e : ε} (hspare : x.All fun a => ¬used a) (hx : x.result = .error e) :
      Attempt used x (.error e)
  | goesOn {s : σ} (hspare : x.All fun a => ¬used a) (hx : x.result = .ok (s, none)) :
      Attempt used x (.ok (s, none))
  | done {s : σ} {b : β} (honce : UsedOnce used x.events) (hx : x.result = .ok (s, some b)) :
      Attempt used x (.ok (s, some b))
  | lost {s : σ} {e : ε} (hused : ∃ a ∈ x.events, used a) (hx : x.result = .ok (s, none)) :
      Attempt used x (.error e)

/-- A part without a use may stand in front. -/
theorem usedOnce_bind_iff {x : Traced ω ε α} {y : Except ε α} {f : α → Traced ω ε β}
    {g : α → Except ε β} (hspare : x.All fun a => ¬used a) (hx : x.result = y)
    (h : ∀ a, UsedOnce used (f a).events ↔ ∃ b, g a = .ok b) :
    UsedOnce used (x >>= f).events ↔ ∃ b, (y >>= g) = .ok b := by
  rw [usedOnce_bind_of_spares hspare]
  cases y with
  | error e => exact iff_of_false (by simp [hx]) (by rintro ⟨b, hb⟩; cases hb)
  | ok a =>
    simp only [hx, Except.ok.injEq, exists_eq_left']
    exact h a

/-- A part without a use may stand in front of an attempt. -/
theorem Attempt.bind_of_spares {x : Traced ω ε α} {y : Except ε α}
    {f : α → Traced ω ε (σ × Option β)} {g : α → Except ε (σ × Option β)}
    (hspare : x.All fun a => ¬used a) (hx : x.result = y)
    (h : ∀ a, Attempt used (f a) (g a)) : Attempt used (x >>= f) (y >>= g) := by
  cases y with
  | error e =>
    refine .fails ?_ (Traced.result_bind_of_error hx)
    exact Traced.all_bind.mpr ⟨hspare, fun a ha => by cases hx.symm.trans ha⟩
  | ok a =>
    have hevents : (x >>= f).events = x.events ++ (f a).events := Traced.events_bind_of_ok hx
    have hres : (x >>= f).result = (f a).result := Traced.result_bind_of_ok hx
    have hall (hf : (f a).All fun a => ¬used a) : (x >>= f).All fun a => ¬used a :=
      Traced.all_bind.mpr ⟨hspare, fun b hb => by cases hx.symm.trans hb; exact hf⟩
    -- The events in front do not decide which kind of attempt it is.
    have hfirst := h a
    show Attempt used _ (g a)
    generalize g a = r at hfirst
    cases hfirst with
    | fails hf hr => exact .fails (hall hf) (hres.trans hr)
    | goesOn hf hr => exact .goesOn (hall hf) (hres.trans hr)
    | done honce hr =>
      refine .done ?_ (hres.trans hr)
      rw [hevents]
      exact (usedOnce_append_of_spares hspare).mpr honce
    | lost hused hr =>
      obtain ⟨b, hb, hb'⟩ := hused
      exact .lost ⟨b, hevents ▸ List.mem_append_right _ hb, hb'⟩ (hres.trans hr)

/-- Another way behind an attempt that has no result. The resource is used up once exactly if
the model comes to its end. -/
theorem Attempt.usedOnce_bind {x : Traced ω ε (σ × Option β)} {y : Except ε (σ × Option β)}
    {f : σ × Option β → Traced ω ε γ} {g : σ × Option β → Except ε γ} (h : Attempt used x y)
    (hdone : ∀ s b, (f (s, some b)).events = [] ∧ ∃ c, g (s, some b) = .ok c)
    (hnone : ∀ s, UsedOnce used (f (s, none)).events ↔ ∃ c, g (s, none) = .ok c)
    (hsome : ∀ s, (f (s, none)).events ≠ []) :
    UsedOnce used (x >>= f).events ↔ ∃ c, (y >>= g) = .ok c := by
  cases h with
  | fails hspare hx =>
    rw [Traced.events_bind_of_error hx]
    exact iff_of_false (not_usedOnce_of_spares hspare) (by rintro ⟨c, hc⟩; cases hc)
  | goesOn hspare hx =>
    rw [Traced.events_bind_of_ok hx, usedOnce_append_of_spares hspare]
    exact hnone _
  | @done s b honce hx =>
    -- Nothing comes behind a result.
    rw [Traced.events_bind_of_ok hx, (hdone s b).1, List.append_nil]
    exact iff_of_true honce (hdone s b).2
  | @lost s e hused hx =>
    -- The next way touches the resource again.
    rw [usedOnce_bind_of_uses hused]
    exact iff_of_false (fun hc => hsome s (hc.2 _ hx)) (by rintro ⟨c, hc⟩; cases hc)

end UsedOnce

end Awds.Lib
