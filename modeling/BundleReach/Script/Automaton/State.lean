import BundleReach.Script.Automaton.Verdict

/-!
# States

A state is a core together with the tokens that may follow each of its items.  The states of a
grammar are found by following the moves from the beginning of a script, nearest first.

State 0 is special: it has no items, and it is where a script is read that has gone wrong.

* `State` — a state with its moves and its verdicts.
* `States.ofGrammar` — all the states of a grammar.
-/

namespace BundleReach.Script

/-- What a state does before each token. -/
structure Conduct where
  verdicts : Verdicts
  /-- The tokens before which something is done. -/
  tokens : TokenSet
  /-- The tokens that are read. -/
  taken : TokenSet
  /-- May a name that is a reserved word not stand here, where other names may? -/
  reserving : Bool
  deriving Inhabited

namespace Conduct

/-- The conduct that some verdicts make. -/
def ofVerdicts (reserving : Bool) (vs : Verdicts) : Conduct where
  verdicts := vs
  tokens := vs.foldl (fun s v => s.union v.2) .empty
  taken := vs.foldl (fun s v =>
    if v.1.reading = .taken || v.1.reading = .repeated then s.union v.2 else s) .empty
  reserving := reserving

/-- No conduct. -/
def none : Conduct := ofVerdicts false []

end Conduct

/-- A state. -/
structure State where
  core : Nat
  /-- The numbers of the sets of tokens that may follow the items of the core. -/
  followers : Array Nat
  /-- The states that the moves of the core lead to. -/
  targets : Array Nat
  /-- The number of the conduct. -/
  conduct : Nat
  deriving Inhabited

/-- The states found so far. -/
structure States where
  court : Court
  sets : Pool TokenSet := {}
  kernels : Pool (Array Nat) := {}
  cores : Array Core := #[]
  /-- For each core, the numbers of the cores that its moves lead to, once they are known. -/
  coreTargets : Array (Array Nat) := #[]
  found : Pool (Array Nat) := {}
  states : Array State := #[]
  /-- What may follow the completions of a core, with the conduct that comes of it. -/
  conductOf : Std.HashMap (Array Nat) Nat := ∅
  conducts : Array Conduct := #[]

namespace States

/-- The core with no items. -/
def emptyCore : Core := ⟨#[], #[], #[], #[], false, false⟩

instance : Inhabited Core := ⟨emptyCore⟩

/-- The number of a core, found or added. -/
def numberCore (kernel : Array Nat) (b : States) : Nat × States :=
  match b.kernels.known[kernel]? with
  | some n => (n, b)
  | none =>
    let core := if kernel.isEmpty then emptyCore else Core.ofKernel b.court.items kernel
    let n := b.kernels.all.size
    (n, { b with
      kernels := (b.kernels.number kernel).2
      cores := b.cores.push core
      coreTargets := b.coreTargets.push #[] })

/-- The number of a set of tokens. -/
def numberSet (s : TokenSet) (b : States) : Nat × States :=
  let (n, sets) := b.sets.number s
  (n, { b with sets := sets })

/-- The number of the set of tokens that an outlook means in a state. -/
def outlookSet (followers : Array Nat) (o : Outlook) (b : States) : Nat × States :=
  if o.inherited == 0 then b.numberSet o.tokens
  else
    let inherited := o.inherited.toList followers.size
    match o.tokens == 0, inherited with
    | true, [place] => (followers.getD place 0, b)
    | _, _ =>
      b.numberSet (inherited.foldl (fun s place =>
        s.union (b.sets.all.getD (followers.getD place 0) .empty)) o.tokens)

/-- The numbers of the sets that some outlooks mean in a state. -/
def outlookSets (followers : Array Nat) (os : Array Outlook) (b : States) : Array Nat × States :=
  os.foldl (fun (ns, b) o =>
    let (n, b) := b.outlookSet followers o
    (ns.push n, b)) (#[], b)

/-- The number of a state, found or added. -/
def numberState (core : Nat) (followers : Array Nat) (b : States) : Nat × States :=
  let key := followers.push core
  match b.found.known[key]? with
  | some n => (n, b)
  | none =>
    let n := b.states.size
    (n, { b with
      found := (b.found.number key).2
      states := b.states.push ⟨core, followers, #[], 0⟩ })

/-- The cores that the moves of a core lead to. -/
def targetCores (core : Nat) (b : States) : Array Nat × States :=
  let known := b.coreTargets.getD core #[]
  let moves := (b.cores.getD core emptyCore).moves
  if known.size = moves.size then (known, b)
  else
    let (targets, b) := moves.foldl (fun (ns, b) m =>
      let (n, b) := numberCore (m.targets.map (·.item)) b
      (Array.push ns n, b)) ((#[] : Array Nat), b)
    (targets, { b with coreTargets := b.coreTargets.setIfInBounds core targets })

/-- Does a state keep reserved words from being names? -/
def reserves (b : States) (core : Core) (followers : List TokenSet) : Bool :=
  let g := b.court.items.grammar
  let all := followers.foldl TokenSet.union .empty
  g.dialect == .plain && (core.name || all.has (g.tokenNumber .identifier)) &&
    !(core.unreservedName || all.has (Items.unreservedName g))

/-- The number of the conduct of a state, given its core and what may follow the completions of
it. -/
def numberConduct (core : Nat) (after : Array Nat) (b : States) : Nat × States :=
  let key := after.push core
  match b.conductOf[key]? with
  | some n => (n, b)
  | none =>
    let c := b.cores.getD core emptyCore
    let sets := after.toList.map fun n => b.sets.all.getD n .empty
    let n := b.conducts.size
    (n, { b with
      conductOf := b.conductOf.insert key n
      conducts := b.conducts.push (.ofVerdicts (b.reserves c sets) (c.verdicts b.court sets)) })

/-- Finds the states that a state leads to, and its conduct. -/
def expand (n : Nat) (b : States) : States :=
  let s := b.states.getD n ⟨0, #[], #[], 0⟩
  let (cores, b) := b.targetCores s.core
  let core := b.cores.getD s.core emptyCore
  let (sets, b) := b.outlookSets s.followers core.outlooks
  let setsOf (ts : Array Target) : Array Nat := ts.map fun t => sets.getD t.outlook 0
  let (targets, b) := (core.moves.zip cores).foldl (fun (ns, b) (m, c) =>
    let (n, b) := numberState c (setsOf m.targets) b
    (Array.push ns n, b)) ((#[] : Array Nat), b)
  let (conduct, b) := b.numberConduct s.core (setsOf core.completed)
  { b with states := b.states.setIfInBounds n { s with targets := targets, conduct := conduct } }

/-- Expands the states from a number on, as long as there are any; `fuel` bounds their number. -/
def expandFrom : Nat → Nat → States → States
  | 0, _, b => b
  | fuel + 1, n, b => if n < b.states.size then expandFrom fuel (n + 1) (b.expand n) else b

/-- The states of a grammar: state 0, the beginning of a script, and all that follow. -/
def ofGrammar (g : Grammar) : States :=
  let items := Items.ofGrammar g
  let script := (items.starts.back?.getD []).toArray
  let (lost, b) := numberCore #[] { court := .ofItems items }
  let b := (b.numberState lost #[]).2
  let (start, b) := b.numberCore script
  let (atEnd, b) := b.numberSet (.single (g.tokenNumber .endOfText))
  expandFrom 1000000 0 (b.numberState start #[atEnd]).2

end States

end BundleReach.Script
