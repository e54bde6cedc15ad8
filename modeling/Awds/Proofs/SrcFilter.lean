import Awds.Proofs.Topology.Links
import Awds.SrcFilter

/-!
# `Awds.Proofs.SrcFilter`: what the arguments of the filter mean

The abstract side is a reading of the arguments from left to right: the settings they give and how
they end. A `--rule` takes the argument behind it, unless this is a name that no node has; then it
is as good as not there. `decision` says what a list of settings means for a node: its last rule
decides, else the last default rule, else it is accepted.

* `addRulesLoop_eq`: the loop of `addRules` follows the reading.
* `withSettings_rules` and `withSettings_defaultPolicy`: the last setting wins.
* `filterWorks_iff`: `addRules` reads its arguments only, decides by the last rules, and the shell
  command does what the same arguments do at the start, exactly if the arguments do not end in an
  open `--rule` and the first argument, which the shell command leaves out, does not matter.
-/

set_option autoImplicit false

namespace Awds.Proofs

open Std (ExtTreeMap)
open Awds.Lib Awds.SrcFilter

/-! ### The last one -/

section
variable {α β : Type}

/-- The last value that `g` takes on a list. -/
def lastOf (g : α → Option β) (l : List α) : Option β := (l.filterMap g).getLast?

/-- An empty list has no last setting. -/
@[simp] theorem lastOf_nil (g : α → Option β) : lastOf g [] = none := rfl

/-- The last element counts if it sets something, else the last one in front of it does. -/
theorem lastOf_snoc (g : α → Option β) (l : List α) (a : α) :
    lastOf g (l ++ [a]) = (g a).or (lastOf g l) := by
  unfold lastOf
  rw [List.filterMap_append, List.getLast?_append]
  cases h : g a <;> simp [h]

end

/-! ### The reading of the arguments -/

/-- What a rule sets: the policy for a node, or the default one. -/
inductive Setting where
  | rule (id : NodeId) (accept : Bool)
  | default (accept : Bool)
  deriving DecidableEq, Repr

/-- What the argument of a `--rule` says. -/
inductive RuleArg where
  | malformed
  | unresolved
  | gives (s : Setting)
  deriving DecidableEq, Repr

/-- How the arguments end: at their end, at a malformed rule, or in a `--rule` that has no
argument. -/
inductive Ending where
  | done
  | malformed
  | missing
  deriving DecidableEq, Repr

/-- The meaning of `+x` and `-x`. -/
def ruleArg (adj : AdjList) (arg : List UInt8) : RuleArg :=
  match ruleSign arg with
  | none => .malformed
  | some accept =>
    if arg.tail = cStr "default" then .gives (.default accept)
    else match adj.getNodeByName arg.tail with
      | none => .unresolved
      | some id => .gives (.rule id accept)

/-- The settings that some arguments give, and their ending. -/
def reading (adj : AdjList) : List (List UInt8) → List Setting × Ending
  | [] => ([], .done)
  | [a] => ([], if a = ruleOption then .missing else .done)
  | a :: arg :: args =>
    if a = ruleOption then
      match ruleArg adj arg with
      | .malformed => ([], .malformed)
      | .unresolved => reading adj (arg :: args)
      | .gives s => (s :: (reading adj args).1, (reading adj args).2)
    else reading adj (arg :: args)

/-- The rule that a setting has for a node. -/
def Setting.ruleFor (id : NodeId) : Setting → Option Bool
  | .rule id' accept => if id' = id then some accept else none
  | .default _ => none

/-- The default that is set. -/
def Setting.asDefault : Setting → Option Bool
  | .rule _ _ => none
  | .default accept => some accept

/-- The last rule for a node. -/
def lastRule (id : NodeId) (S : List Setting) : Option Bool := lastOf (Setting.ruleFor id) S

/-- The last default rule. -/
def lastDefault (S : List Setting) : Option Bool := lastOf Setting.asDefault S

/-- What the settings say of a node. -/
def decisionFor (S : List Setting) (id : NodeId) : Bool :=
  (lastRule id S).getD ((lastDefault S).getD true)

/-- What the settings say of a packet. -/
def decision (S : List Setting) (p : BasePacket) : Bool :=
  match p.getType with
  | .beacon => decisionFor S (SrcPacket.getSrc p)
  | .flood => decisionFor S (Flood.getLastHop p)
  | .unicast | .forward => true

/-! ### The filter follows the reading -/

/-- The filter with one more setting. -/
def withSetting (f : SrcFilter) : Setting → SrcFilter
  | .rule id accept => { f with rules := f.rules.insert id accept }
  | .default accept => { f with defaultPolicy := accept }

/-- The filter with some more settings. -/
def withSettings (f : SrcFilter) (S : List Setting) : SrcFilter := S.foldl withSetting f

variable {adj : AdjList} {f : SrcFilter} {a arg : List UInt8} {args : List (List UInt8)}

/-- The last rule for a node wins. -/
theorem withSettings_rules (f : SrcFilter) (S : List Setting) (id : NodeId) :
    (withSettings f S).rules[id]? = (lastRule id S).or f.rules[id]? := by
  induction S using List.reverseRecOn with
  | nil => rfl
  | append_singleton S s ih =>
    have hsnoc : withSettings f (S ++ [s]) = withSetting (withSettings f S) s := by
      simp [withSettings]
    rw [hsnoc, lastRule, lastOf_snoc, Option.or_assoc, ← lastRule, ← ih]
    cases s with
    | rule id' accept =>
      show ((withSettings f S).rules.insert id' accept)[id]? = _
      rw [ExtTreeMap.getElem?_insert]
      by_cases h : id' = id
      · simp [h, Setting.ruleFor]
      · simp [h, Setting.ruleFor]
    | default accept => rfl

/-- The last default rule wins. -/
theorem withSettings_defaultPolicy (f : SrcFilter) (S : List Setting) :
    (withSettings f S).defaultPolicy = (lastDefault S).getD f.defaultPolicy := by
  induction S using List.reverseRecOn with
  | nil => rfl
  | append_singleton S s ih =>
    have hsnoc : withSettings f (S ++ [s]) = withSetting (withSettings f S) s := by
      simp [withSettings]
    rw [hsnoc, lastDefault, lastOf_snoc, ← lastDefault]
    cases s with
    | rule id' accept => exact ih
    | default accept => rfl

/-- A new filter decides by the last rules. -/
theorem checkPacket_withSettings (S : List Setting) (p : BasePacket) :
    (withSettings {} S).checkPacket p = decision S p := by
  have hnode : ∀ id, (withSettings {} S).policyOf id = decisionFor S id := by
    intro id
    have hnone : (({} : SrcFilter).rules[id]?) = none := ExtTreeMap.getElem?_empty
    unfold policyOf decisionFor
    rw [withSettings_rules, withSettings_defaultPolicy, hnone, Option.or_none]
  unfold checkPacket decision
  cases p.getType with
  | beacon => exact hnode _
  | flood => exact hnode _
  | unicast => rfl
  | forward => rfl

/-- An argument that is not `--rule` gives nothing. -/
theorem reading_other (h : a ≠ ruleOption) : reading adj (a :: args) = reading adj args := by
  cases args with
  | nil => simp [reading, h]
  | cons arg args => rw [reading, if_neg h]

/-- The result of `addRules` for a reading. -/
def outcome (f : SrcFilter) (x : List Setting × Ending) (os : List FilterMessage) :
    Result (Int × SrcFilter × List FilterMessage) :=
  match x.2 with
  | .done => .ok (0, withSettings f x.1, os)
  | .malformed => .ok (1, withSettings f x.1, os)
  | .missing => .error .outOfBounds

/-- The argument at an index is the head of what is left there. -/
theorem argAt_of_drop {argv : List (List UInt8)} {idx : Nat} (hidx : 1 ≤ idx)
    (h : argv.drop idx = a :: args) : argAt argv idx = .ok a ∧ argv.drop (idx + 1) = args := by
  have hget : argv[idx]? = some a := by
    rw [← Nat.add_zero idx, ← List.getElem?_drop, h]
    rfl
  obtain ⟨k, rfl⟩ : ∃ k, idx = k + 1 := ⟨idx - 1, by omega⟩
  refine ⟨by simp only [argAt, hget], ?_⟩
  rw [← List.drop_drop, h]
  rfl

/-- Behind the last argument there is none. -/
theorem argAt_of_drop_nil {argv : List (List UInt8)} {idx : Nat} (h : argv.drop idx = []) :
    argAt argv idx = .error .outOfBounds := by
  have hget : argv[idx]? = none := List.getElem?_eq_none (List.drop_eq_nil_iff.mp h)
  cases idx with
  | zero => rfl
  | succ k => simp only [argAt, hget]

/-- The argument of a default rule is not `--rule`. -/
theorem ne_ruleOption (h : arg.tail = cStr "default") : arg ≠ ruleOption := by
  rintro rfl
  exact absurd h (by decide)

/-- The loop at the index `idx` follows the reading of the arguments from there on. -/
theorem addRulesLoop_eq {argv : List (List UInt8)} (n : Nat) : ∀ {idx : Nat} {f : SrcFilter}
    {args : List (List UInt8)} (os : List FilterMessage), 1 ≤ idx → idx ≤ argv.length + 1 →
      argv.length + 2 ≤ n + idx → argv.drop idx = args →
      ∃ os', addRulesLoop adj argv n idx f os = outcome f (reading adj args) os' := by
  induction n with
  | zero =>
    intro idx f args os hpos hle hfuel
    omega
  | succ n ih =>
    intro idx f args os hpos hle hfuel hdrop
    rw [addRulesLoop]
    cases args with
    | nil =>
      rw [if_pos (List.drop_eq_nil_iff.mp hdrop)]
      exact ⟨os, rfl⟩
    | cons a args =>
      have hlt : idx < argv.length := by
        by_contra hge
        rw [List.drop_eq_nil_iff.mpr (by omega)] at hdrop
        cases hdrop
      obtain ⟨harg, hrest⟩ := argAt_of_drop hpos hdrop
      rw [if_neg (by omega), harg]
      show ∃ os', (if a = ruleOption ∧ _ then _ else _) = _
      by_cases ha : a = ruleOption
      · rw [if_pos ⟨ha, by omega⟩]
        cases args with
        | nil =>
          -- the last argument is a `--rule`
          have hreading : reading adj [a] = ([], .missing) := by simp [reading, ha]
          rw [argAt_of_drop_nil hrest, hreading]
          exact ⟨os, rfl⟩
        | cons arg args =>
          obtain ⟨harg', hrest'⟩ := argAt_of_drop (by omega) hrest
          have hlt' : idx + 1 < argv.length := by
            by_contra hge
            rw [List.drop_eq_nil_iff.mpr (by omega)] at hrest
            cases hrest
          rw [harg', reading, if_pos ha, ruleArg]
          simp only [bind, Except.bind]
          cases hsign : ruleSign arg with
          | none => exact ⟨os ++ [.syntaxError arg], rfl⟩
          | some accept =>
            dsimp only
            by_cases hdefault : arg.tail = cStr "default"
            · -- the index is still at the argument, which is skipped then
              simp only [if_pos hdefault]
              have hnext := ih (f := { f with defaultPolicy := accept }) os (by omega) (by omega)
                (by omega) hrest
              rwa [reading_other (ne_ruleOption hdefault)] at hnext
            · simp only [if_neg hdefault]
              cases hname : adj.getNodeByName arg.tail with
              | none => exact ih (os ++ [.unknownName arg]) (by omega) (by omega) (by omega) hrest
              | some id =>
                exact ih (f := { f with rules := f.rules.insert id accept }) os (by omega)
                  (by omega) (by omega) hrest'
      · rw [if_neg fun h => ha h.1, reading_other ha]
        exact ih os (by omega) (by omega) (by omega) hrest

/-- `addRules` reads the arguments behind the name. -/
theorem addRules_eq (adj : AdjList) (f : SrcFilter) (name : List UInt8)
    (args : List (List UInt8)) :
    ∃ os, addRules adj f (name :: args) = outcome f (reading adj args) os :=
  addRulesLoop_eq _ [] (by omega) (by simp) (by omega) rfl

/-- What the shell command reads of its arguments: the first one takes the place of a name. -/
def shellReading (adj : AdjList) : List (List UInt8) → List Setting × Ending
  | [] => ([], .done)
  | cmd :: args => if cmd = cStr "show" then ([], .done) else reading adj args

/-- `cmdFilter` does what the reading of its arguments says: it prints its help, shows the rules, or
adds some. -/
theorem cmdFilter_eq (adj : AdjList) (f : SrcFilter) (name : List UInt8)
    (args : List (List UInt8)) :
    ∃ os, cmdFilter adj f (name :: args) = outcome f (shellReading adj args) os := by
  cases args with
  | nil => exact ⟨[.help], rfl⟩
  | cons cmd args =>
    unfold cmdFilter shellReading
    dsimp only
    split
    · exact ⟨f.dumpRules, rfl⟩
    · exact addRules_eq adj f cmd args

/-- If the command ends, no argument was missing, and the filter has the settings that were read. -/
theorem outcome_ok {x : List Setting × Ending} {os os' : List FilterMessage} {ret : Int}
    {f' : SrcFilter} (h : outcome f x os = .ok (ret, f', os')) :
    x.2 ≠ .missing ∧ f' = withSettings f x.1 := by
  unfold outcome at h
  split at h
  · rename_i hend
    cases h
    exact ⟨by rw [hend]; decide, rfl⟩
  · rename_i hend
    cases h
    exact ⟨by rw [hend]; decide, rfl⟩
  · cases h

/-- Where no argument is missing the command ends. -/
theorem exists_outcome {x : List Setting × Ending} (hx : x.2 ≠ .missing)
    (os : List FilterMessage) : ∃ ret, outcome f x os = .ok (ret, withSettings f x.1, os) := by
  unfold outcome
  split
  · exact ⟨0, rfl⟩
  · exact ⟨1, rfl⟩
  · rename_i hend
    exact absurd hend hx

/-- The filter at the start, if its arguments do not ask for help. -/
theorem main_eq {name : List UInt8} (hhelp : cStr "--help" ∉ name :: args)
    (hend : (reading adj args).2 ≠ .missing) :
    main adj (name :: args) = .ok (some (withSettings {} (reading adj args).1)) := by
  unfold main
  rw [if_neg hhelp]
  cases args with
  | nil => rfl
  | cons a args =>
    obtain ⟨os, hos⟩ := addRules_eq adj {} name (a :: args)
    obtain ⟨ret, hret⟩ := exists_outcome (f := {}) hend os
    rw [if_pos (by simp), hos, hret]
    rfl

/-! ### The two callers -/

/-- Two lists of settings mean the same to a new filter. -/
def MeansSame (S S' : List Setting) : Prop :=
  (∀ id, lastRule id S = lastRule id S') ∧
    (lastDefault S).getD true = (lastDefault S').getD true

/-- Two lists of settings lead to the same filter if they mean the same: the rules and the default
are compared one by one. -/
theorem withSettings_eq_iff (S S' : List Setting) :
    withSettings {} S = withSettings {} S' ↔ MeansSame S S' := by
  have hnone : ∀ id, ({} : SrcFilter).rules[id]? = none := fun _ => ExtTreeMap.getElem?_empty
  constructor
  · intro h
    refine ⟨fun id => ?_, ?_⟩
    · have hrule := congrArg (fun f : SrcFilter => f.rules[id]?) h
      simpa only [withSettings_rules, hnone, Option.or_none] using hrule
    · have hdefault := congrArg SrcFilter.defaultPolicy h
      rwa [withSettings_defaultPolicy, withSettings_defaultPolicy] at hdefault
  · intro h
    have hrules : (withSettings {} S).rules = (withSettings {} S').rules := by
      refine ExtTreeMap.ext_getElem? fun id => ?_
      rw [withSettings_rules, withSettings_rules, h.1 id]
    have hdefault : (withSettings {} S).defaultPolicy = (withSettings {} S').defaultPolicy := by
      rw [withSettings_defaultPolicy, withSettings_defaultPolicy]
      exact h.2
    cases hS : withSettings {} S
    cases hS' : withSettings {} S'
    rw [hS, hS'] at hrules hdefault
    exact SrcFilter.mk.injEq _ _ _ _ ▸ ⟨hrules, hdefault⟩

/-- The filter does with the arguments `args` what it should. -/
structure FilterWorks (adj : AdjList) (args : List (List UInt8)) : Prop where
  /-- `addRules` ends, and it reads its arguments only. -/
  inside : ∀ f name, ∃ ret f' os, addRules adj f (name :: args) = .ok (ret, f', os)
  /-- A filter whose rules have been read without an error decides by the last ones. -/
  decides : ∀ name f' os, addRules adj {} (name :: args) = .ok (0, f', os) →
    ∀ p, f'.checkPacket p = decision (reading adj args).1 p
  /-- The shell command makes a new filter what it is when it starts with the arguments. -/
  shell : ∀ name name' f', main adj (name :: args) = .ok (some f') →
    ∃ ret os, cmdFilter adj {} (name' :: args) = .ok (ret, f', os)

/-- For every topology and all arguments: the filter does with them what it should exactly if they
do not end in a `--rule` that has no argument, and the shell command, which leaves out the first
one, reads from the others what all of them say. Arguments that ask for help start no filter. -/
theorem filterWorks_iff (adj : AdjList) (args : List (List UInt8)) :
    FilterWorks adj args ↔ (reading adj args).2 ≠ .missing ∧
      (cStr "--help" ∈ args ∨ (shellReading adj args).2 ≠ .missing ∧
        MeansSame (reading adj args).1 (shellReading adj args).1) := by
  constructor
  · -- What works can be read, by the program and by its shell.
    intro h
    obtain ⟨ret, f', os, hinside⟩ := h.inside {} []
    obtain ⟨os', hos'⟩ := addRules_eq adj {} [] args
    obtain ⟨hend, -⟩ := outcome_ok (hos'.symm.trans hinside)
    refine ⟨hend, ?_⟩
    by_cases hhelp : cStr "--help" ∈ args
    · exact .inl hhelp
    · have hnohelp : cStr "--help" ∉ [] :: args := by
        rw [List.mem_cons, not_or]
        exact ⟨by decide, hhelp⟩
      obtain ⟨ret, os, hshell⟩ := h.shell [] [] _ (main_eq hnohelp hend)
      obtain ⟨os', hos'⟩ := cmdFilter_eq adj {} [] args
      obtain ⟨hend', heq⟩ := outcome_ok (hos'.symm.trans hshell)
      exact .inr ⟨hend', (withSettings_eq_iff _ _).mp heq⟩
  · -- The outcome of both readings is known, so the three parts are computed.
    rintro ⟨hend, hshell⟩
    refine ⟨fun f name => ?_, fun name f' os hread p => ?_, fun name name' f' hmain => ?_⟩
    · obtain ⟨os, hos⟩ := addRules_eq adj f name args
      obtain ⟨ret, hret⟩ := exists_outcome (f := f) hend os
      exact ⟨ret, _, os, hos.trans hret⟩
    · obtain ⟨os', hos'⟩ := addRules_eq adj {} name args
      obtain ⟨-, rfl⟩ := outcome_ok (hos'.symm.trans hread)
      exact checkPacket_withSettings _ p
    · by_cases hhelp : cStr "--help" ∈ name :: args
      · -- no filter is started
        unfold main at hmain
        rw [if_pos hhelp] at hmain
        cases hmain
      · rw [main_eq hhelp hend, Except.ok.injEq, Option.some.injEq] at hmain
        obtain hhelp' | ⟨hend', hsame⟩ := hshell
        · exact absurd (List.mem_cons_of_mem _ hhelp') hhelp
        · obtain ⟨os, hos⟩ := cmdFilter_eq adj {} name' args
          obtain ⟨ret, hret⟩ := exists_outcome (f := {}) hend' os
          rw [← hmain, (withSettings_eq_iff _ _).mpr hsame]
          exact ⟨ret, os, hos.trans hret⟩

/-- The arguments `--rule -default`. -/
def blockAll : List (List UInt8) := [cStr "--rule", cStr "-default"]

/-- At the start `--rule -default` blocks all stations, and the shell command reads from the same
arguments that nothing is to be changed. A `--rule` at the end makes `addRules` read the null
pointer behind the arguments. -/
theorem filter_first_lost :
    (∃ f, main ∅ (cStr "src_filter" :: blockAll) = .ok (some f) ∧ f.defaultPolicy = false) ∧
      cmdFilter ∅ {} (cStr "srcfilter" :: blockAll) = .ok (0, {}, []) ∧
      ¬ FilterWorks ∅ blockAll ∧
      addRules ∅ {} [cStr "src_filter", cStr "--rule"] = .error .outOfBounds ∧
      ¬ FilterWorks ∅ [cStr "--rule"] := by
  have hmain : ∃ f, main ∅ (cStr "src_filter" :: blockAll) = .ok (some f) ∧
      f.defaultPolicy = false := ⟨_, rfl, rfl⟩
  have hshell : cmdFilter ∅ {} (cStr "srcfilter" :: blockAll) = .ok (0, {}, []) := rfl
  have hend : addRules ∅ {} [cStr "src_filter", cStr "--rule"] = .error .outOfBounds := rfl
  refine ⟨hmain, hshell, fun h => ?_, hend, fun h => ?_⟩
  · obtain ⟨f, hstart, hblocks⟩ := hmain
    obtain ⟨ret, os, hcmd⟩ := h.shell _ (cStr "srcfilter") f hstart
    rw [hshell] at hcmd
    cases hcmd
    cases hblocks
  · obtain ⟨ret, f, os, hread⟩ := h.inside {} (cStr "src_filter")
    rw [hend] at hread
    cases hread

end Awds.Proofs
