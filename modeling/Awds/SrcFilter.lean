import Awds.Topology.Names

/-!
# `Awds.SrcFilter`: the filter for source addresses

`SrcFilter` is a firewall. Beacons are checked by their source and flood packets by their last
hop, all other packets pass. `addRules` reads the rules from the arguments behind `argv[0]`, with
an index that moves on in the middle of an iteration. The shell command `srcfilter` hands its
arguments to `addRules` without its own name, so that its first argument takes the place of
`argv[0]`.

An argument vector is the list of its `argc` strings. An access behind them is an error: there is
the null pointer at the end of the vector.
-/

set_option autoImplicit false

namespace Awds

open Std

/-- `SrcFilter`, with the constructor's values. -/
structure SrcFilter where
  rules : ExtTreeMap NodeId Bool compare := ∅
  defaultPolicy : Bool := true

/-- What is written to the output: a syntax error or an unknown name with the argument, a rule of
`dumpRules` (the default one has no node), or the help. -/
inductive FilterMessage where
  | syntaxError (arg : List UInt8)
  | unknownName (arg : List UInt8)
  | rule (accept : Bool) (id : Option NodeId)
  | help
  deriving DecidableEq, Repr

namespace SrcFilter

/-- The policy for a node. -/
def policyOf (f : SrcFilter) (src : NodeId) : Bool := (f.rules[src]?).getD f.defaultPolicy

/-- `check_packet`. -/
def checkPacket (f : SrcFilter) (p : BasePacket) : Bool :=
  match p.getType with
  | .flood => f.policyOf (Flood.getLastHop p)
  | .beacon => f.policyOf (SrcPacket.getSrc p)
  -- we cannot filter unicast and flow packets
  | .unicast | .forward => true

/-- `argv[idx]`, of the arguments that are there for rules. -/
def argAt (argv : List (List UInt8)) (idx : Nat) : Result (List UInt8) :=
  match idx, argv[idx]? with
  | _ + 1, some arg => .ok arg
  | _, _ => .error .outOfBounds

/-- The sign of a rule: whether it accepts. -/
def ruleSign : List UInt8 → Option Bool
  | c :: _ => if c = 43 then some true else if c = 45 then some false else none
  | [] => none

/-- `"--rule"`. -/
def ruleOption : List UInt8 := cStr "--rule"

/-- The loop of `addRules`, at most `n` tests. -/
def addRulesLoop (adj : AdjList) (argv : List (List UInt8)) : Nat → Nat → SrcFilter →
    List FilterMessage → Result (Int × SrcFilter × List FilterMessage)
  | 0, _, _, _ => .error .diverges
  | n + 1, idx, f, os =>
    if argv.length ≤ idx then .ok (0, f, os)
    else do
      let arg ← argAt argv idx
      -- the bound holds for the last index, too
      if arg = ruleOption ∧ idx + 1 ≤ argv.length then do
        let idx := idx + 1
        let arg ← argAt argv idx
        match ruleSign arg with
        | none => .ok (1, f, os ++ [.syntaxError arg])
        | some accept =>
          -- both `continue`s leave the index at the argument
          if arg.tail = cStr "default" then
            addRulesLoop adj argv n idx { f with defaultPolicy := accept } os
          else match adj.getNodeByName arg.tail with
            | none => addRulesLoop adj argv n idx f (os ++ [.unknownName arg])
            | some id =>
              addRulesLoop adj argv n (idx + 1) { f with rules := f.rules.insert id accept } os
      else addRulesLoop adj argv n (idx + 1) f os

/-- `addRules`, with the value it returns and its output. The index goes up in each iteration. -/
def addRules (adj : AdjList) (f : SrcFilter) (argv : List (List UInt8)) :
    Result (Int × SrcFilter × List FilterMessage) :=
  addRulesLoop adj argv (argv.length + 1) 1 f []

/-- `dumpRules`. -/
def dumpRules (f : SrcFilter) : List FilterMessage :=
  .rule f.defaultPolicy none :: f.rules.toList.map fun e => .rule e.2 (some e.1)

/-- `cmd_filter`. -/
def cmdFilter (adj : AdjList) (f : SrcFilter) (argv : List (List UInt8)) :
    Result (Int × SrcFilter × List FilterMessage) :=
  match argv with
  | _ :: cmd :: args =>
    if cmd = cStr "show" then .ok (0, f, f.dumpRules) else f.addRules adj (cmd :: args)
  | _ => .ok (0, f, [.help])

/-- The filter that `GEA_MAIN_2(src_filter)` plugs in, if it is not asked for help. The objects it
needs are in the repository. -/
def main (adj : AdjList) (argv : List (List UInt8)) : Result (Option SrcFilter) :=
  if cStr "--help" ∈ argv then .ok none
  else if argv.length > 1 then do
    let (_, f, _) ← addRules adj {} argv
    .ok (some f)
  else .ok (some {})

end SrcFilter

end Awds
