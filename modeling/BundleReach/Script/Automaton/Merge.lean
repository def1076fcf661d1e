import BundleReach.Script.Automaton.Clash

/-!
# Merging states

States with one core differ only in what may follow their items.  They are merged where that makes
no difference: where they do the same before every token that both expect, where the tokens that
only one of them expects do not get in the way of those of the other, and where the states that
they lead to are merged in turn.

A state joins a group unless it differs from a state that is in it already, so the groups depend on
the order in which states are found.

* `Partition` — states in groups.
* `Partition.refineBy` — splits groups until no two states of a group differ.
* `States.merged` — the groups of states that are to be merged.
-/

namespace BundleReach.Script

/-- States in groups. -/
structure Partition where
  groups : Array (Array Nat)
  /-- The group of each state. -/
  groupOf : Array Nat

namespace Partition

/-- Separates from some states those that differ from one that stays. -/
def sift (differ : Nat → Nat → Bool) (states : Array Nat) : Array Nat × Array Nat :=
  states.foldl (fun (kept, rest) s =>
    if kept.any fun k => differ k s then (kept, rest.push s) else (kept.push s, rest)) (#[], #[])

/-- Splits the group of a number. -/
def split (differ : Array Nat → Nat → Nat → Bool) (group : Nat) (p : Partition) : Partition :=
  let states := p.groups.getD group #[]
  if states.size ≤ 1 then p
  else
    let (kept, rest) := sift (differ p.groupOf) states
    if rest.isEmpty then p
    else
      { groups := (p.groups.setIfInBounds group kept).push rest
        groupOf := rest.foldl (fun g s => g.setIfInBounds s p.groups.size) p.groupOf }

/-- Splits every group from a number on, the new ones included; `fuel` bounds their number. -/
def splitFrom (differ : Array Nat → Nat → Nat → Bool) : Nat → Nat → Partition → Partition
  | 0, _, p => p
  | fuel + 1, group, p =>
    if group < p.groups.size then splitFrom differ fuel (group + 1) (p.split differ group) else p

/-- Splits every group once. -/
def splitAll (differ : Array Nat → Nat → Nat → Bool) (p : Partition) : Partition :=
  p.splitFrom differ (p.groupOf.size + 1) 0

/-- Splits groups until no two states of a group differ; `fuel` bounds the number of rounds. -/
def refineBy (differ : Array Nat → Nat → Nat → Bool) : Nat → Partition → Partition
  | 0, p => p
  | fuel + 1, p =>
    let count := p.groups.size
    let q := p.splitAll differ
    if q.groups.size = count then q else refineBy differ fuel q

end Partition

namespace States

/-- The states of each core, in the order in which they were found. -/
def byCore (b : States) : Partition where
  groups := b.states.zipIdx.foldl (fun gs (s, n) => gs.modify s.core (·.push n))
    (Array.replicate b.cores.size #[])
  groupOf := b.states.map (·.core)

/-- Tokens that depend on what the grammar expects, and tokens whose being expected is what others
depend on.  States that differ in one of them are not merged. -/
def decisiveTokens (g : Grammar) : TokenSet :=
  Clashes.tokensWhere g fun _ t =>
    (!t.isPlain && t != .endOfText) || t == .word "||" || t == .escape || t == .regexPattern

/-- The tokens that each token gets in the way of.  Keywords are told from names by what is
expected, so they do not get in each other's way. -/
def blockedTokens (g : Grammar) (c : Clashes) : Array TokenSet :=
  let keywords := Clashes.tokensWhere g fun _ t => t.isKeyword
  let name := TokenSet.single (g.tokenNumber .identifier)
  (g.tokens.zip c.blocked).map fun (t, blocked) =>
    if t == .identifier then blocked.without keywords
    else if t.isKeyword then blocked.without name
    else blocked

/-- The tokens that get in the way of some tokens. -/
def intruders (blocked : Array TokenSet) (decisive tokens : TokenSet) : TokenSet :=
  blocked.zipIdx.foldl (fun s (b, n) => if b.disjoint tokens then s else s.insert n) decisive

/-- Do two conducts of a core disagree on a token that both know? -/
def disagree (a b : Conduct) : Bool :=
  a.verdicts.any fun (v, s) => b.verdicts.any fun (w, t) => !s.disjoint t && v != w

/-- Is it wrong to merge states with the given conducts?  `intruding` holds the intruders of the
tokens of each conduct. -/
def conductsClash (b : States) (intruding : Array TokenSet) (m n : Nat) : Bool :=
  if m = n then false
  else
    let p := b.conducts.getD m .none
    let q := b.conducts.getD n .none
    disagree p q ||
      !(p.tokens.without q.tokens).disjoint (intruding.getD n .empty) ||
      !(q.tokens.without p.tokens).disjoint (intruding.getD m .empty)

/-- Do two states of a core lead to different groups by a symbol that both read? -/
def targetsDiffer (b : States) (groupOf : Array Nat) (m n : Nat) : Bool :=
  let s := b.states.getD m default
  let t := b.states.getD n default
  let taken (state : State) := (b.conducts.getD state.conduct .none).taken
  let bound := b.court.items.grammar.tokens.size
  let moves := (b.cores.getD s.core emptyCore).moves
  let apart (i : Nat) : Bool :=
    groupOf.getD (s.targets.getD i 0) 0 != groupOf.getD (t.targets.getD i 0) 0
  anyBelow moves.size fun i => apart i &&
    (match moves[i]? with
    | some move => bound ≤ move.symbol || ((taken s).has move.symbol && (taken t).has move.symbol)
    | none => false)
where
  /-- Does a condition hold of a number below a bound? -/
  anyBelow : Nat → (Nat → Bool) → Bool
    | 0, _ => false
    | n + 1, p => p n || anyBelow n p

/-- The groups of states that are to be merged. -/
def merged (b : States) (c : Clashes) : Partition :=
  let g := b.court.items.grammar
  let blocked := blockedTokens g c
  let intruding := b.conducts.map fun conduct =>
    intruders blocked (decisiveTokens g) conduct.tokens
  let conductOf (n : Nat) : Nat := (b.states.getD n default).conduct
  let clash (_ : Array Nat) (m n : Nat) : Bool :=
    b.conductsClash intruding (conductOf m) (conductOf n)
  (b.byCore.splitAll clash).refineBy b.targetsDiffer b.states.size

end States

end BundleReach.Script
