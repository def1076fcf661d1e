import BundleReach.Script.Automaton.Merge

/-!
# The table of a grammar

What the reader of scripts does in each state: before each token, whether a construct is complete
and whether the token is read, and after a construct, which state comes next.

A state that does nothing but complete a construct with a single part and no node of its own is
passed over: the moves to it lead to where it would lead.

* `Cell`, `Row`, `Table` — the table.
* `Table.ofDialect` — the table of a dialect.
-/

namespace BundleReach.Script

/-- Whether a token is read, and the state that comes then. -/
inductive Shift where
  | refused
  | taken (state : Nat)
  /-- Read as part of a repetition that may as well be closed first. -/
  | repeated (state : Nat)
  /-- Passed over: the token may stand anywhere. -/
  | skipped
  /-- Kept as part of what has gone wrong. -/
  | lost
  deriving DecidableEq, Inhabited

namespace Shift

/-- The state that comes when the token is read, if it is not the same one. -/
def state? : Shift → Option Nat
  | taken n | repeated n => some n
  | _ => none

/-- The same with another state. -/
def mapState (f : Nat → Nat) : Shift → Shift
  | taken n => taken (f n)
  | repeated n => repeated (f n)
  | s => s

end Shift

/-- What is done in a state before a token. -/
structure Cell where
  /-- The numbers of the completions to try. -/
  reductions : List Nat
  shift : Shift
  deriving DecidableEq, Inhabited

namespace Cell

/-- Nothing can be done. -/
def none : Cell := ⟨[], .refused⟩

/-- Can nothing be done? -/
def isEmpty (c : Cell) : Bool := c.reductions.isEmpty && c.shift == .refused

end Cell

/-- What is done in a state. -/
structure Row where
  cells : Array Cell
  /-- The state that comes after each construct; state 0 stands for none. -/
  gotos : Array Nat
  /-- Are reserved words kept from being names? -/
  reserving : Bool
  deriving Inhabited

namespace Row

/-- The cell of a token. -/
def cell (r : Row) (token : Nat) : Cell := r.cells.getD token .none

/-- Is anything done before the token? -/
def expects (r : Row) (token : Nat) : Bool := !(r.cell token).isEmpty

/-- The states that come next. -/
def targets (r : Row) : List Nat :=
  r.cells.toList.filterMap (·.shift.state?) ++ r.gotos.toList.filter (· != 0)

/-- The same with other states. -/
def mapTargets (f : Nat → Nat) (r : Row) : Row where
  cells := r.cells.map fun c => { c with shift := c.shift.mapState f }
  gotos := r.gotos.map fun n => if n = 0 then 0 else f n
  reserving := r.reserving

/-- How much is done in the state. -/
def size (r : Row) : Nat :=
  (r.cells.toList.filter fun c => !c.isEmpty).length + (r.gotos.toList.filter (· != 0)).length

/-- The tokens before which something is done. -/
def tokens (r : Row) : TokenSet :=
  TokenSet.ofList ((r.cells.toList.zipIdx.filter fun (c, _) => !c.isEmpty).map (·.2))

end Row

/-! ## Rows of merged states -/

namespace States

/-- Fills the cells and the constructs of a row that a state knows and that are not filled yet. -/
def fill (b : States) (p : Partition) (row : Row) (n : Nat) : Row :=
  let s := b.states.getD n default
  let bound := b.court.items.grammar.tokens.size
  let conduct := b.conducts.getD s.conduct .none
  let moves := ((b.cores.getD s.core emptyCore).moves.zip s.targets).map fun (m, t) =>
    (m.symbol, p.groupOf.getD t 0)
  let targets := moves.foldl (fun (ts : Array Nat) (symbol, t) => ts.setIfInBounds symbol t)
    (Array.replicate bound 0)
  let gotos := moves.foldl (fun (gs : Array Nat) (symbol, t) =>
    if bound ≤ symbol then gs.setIfInBounds (symbol - bound) t else gs) row.gotos
  let cellOf (v : Verdict) (token : Nat) : Cell :=
    let t := targets.getD token 0
    ⟨v.reductions, match v.reading with
      | .refused => .refused
      | .taken => .taken t
      | .repeated => .repeated t
      | .skipped => .skipped⟩
  let cells := conduct.verdicts.foldl (fun cells (v, tokens) =>
    (tokens.toList bound).foldl (fun cells token =>
      cells.setIfInBounds token (cellOf v token)) cells) row.cells
  ⟨cells, gotos, row.reserving || conduct.reserving⟩

/-- The row of a group of states.  States with one conduct do the same. -/
def rowOf (b : States) (p : Partition) (group : Array Nat) : Row :=
  let g := b.court.items.grammar
  let empty : Row :=
    ⟨Array.replicate g.tokens.size .none, Array.replicate g.constructs.size 0, false⟩
  (group.foldl (fun ((row, seen) : Row × List Nat) n =>
    let conduct := (b.states.getD n default).conduct
    if seen.contains conduct then (row, seen)
    else (b.fill p row n, conduct :: seen)) (empty, [])).1

/-- Tokens that are not looked for where a script has gone wrong: they would swallow others. -/
def isElusive : Token → Bool
  | .stringPiece _ | .markupPiece _ | .regexPattern | .regexFlags | .characterReference
  | .hyphenName => true
  | .word text => text == "/>" || text == "?:"
  | _ => false

/-- The row of state 0: every token is kept that is not elusive. -/
def lostRow (g : Grammar) : Row where
  cells := g.tokens.map fun t => if isElusive t then .none else ⟨[], .lost⟩
  gotos := Array.replicate g.constructs.size 0
  reserving := false

/-- The rows of all groups. -/
def rows (b : States) (p : Partition) : Array Row :=
  (p.groups.map (b.rowOf p)).setIfInBounds 0 (lostRow b.court.items.grammar)

end States

/-! ## Passing over single parts -/

/-- Does a completion merely pass on its single part? -/
def Reduction.isPassing (g : Grammar) (r : Reduction) : Bool :=
  r.count == 1 && r.marks.isEmpty && r.weight == 0 &&
    match g.constructs[r.construct]? with
    | some (.again _) => true
    | some (.head (.part p)) => (Head.part p).kind?.isNone && !(Head.part p).isUmbrella
    | _ => false

/-- The construct that a state completes, if it does nothing but pass on a single part. -/
def Row.passed? (g : Grammar) (reductions : Array Reduction) (r : Row) : Option Nat :=
  let busy := r.cells.toList.filter fun c => !c.isEmpty && c != ⟨[], .skipped⟩
  let completed := busy.map fun c =>
    if c.shift == .refused || c.shift == .skipped then
      c.reductions.map fun n =>
        let reduction := reductions.getD n default
        if reduction.isPassing g then some reduction.construct else none
    else [none]
  match completed.flatten with
  | some c :: rest => if rest.all (· == some c) then some c else none
  | _ => none

/-- The state that a move leads to from the given row, when states that merely pass on a part are
passed over; `fuel` bounds how many are. -/
def Row.beyond (passed : Array (Option Nat)) (r : Row) : Nat → Nat → Nat
  | 0, n => n
  | fuel + 1, n =>
    match passed.getD n none with
    | none => n
    | some c =>
      match r.gotos.getD c 0 with
      | 0 => n
      | next => Row.beyond passed r fuel next

/-- The rows with states passed over that merely pass on a part. -/
def passOver (g : Grammar) (reductions : Array Reduction) (rows : Array Row) : Array Row :=
  let passed := rows.map (·.passed? g reductions)
  rows.map fun r => r.mapTargets (r.beyond passed rows.size)

/-- Keeps the rows of the given numbers, in their order. -/
def selectRows (rows : Array Row) (numbers : List Nat) : Array Row :=
  let places := numbers.zipIdx.foldl (fun (ps : Array Nat) (n, place) =>
    ps.setIfInBounds n place) (Array.replicate rows.size 0)
  (numbers.map fun n => (rows.getD n default).mapTargets fun t => places.getD t 0).toArray

/-- The rows that are in use: the first two, and those that some row leads to. -/
def usedRows (rows : Array Row) : Array Row :=
  let used := rows.foldl (fun (used : Array Bool) r =>
    r.targets.foldl (fun used n => used.setIfInBounds n true) used)
    (Array.replicate rows.size false)
  selectRows rows ((List.range rows.size).filter fun n => n < 2 || used.getD n false)

/-- The rows with the first two in place and the others by size, the greatest first. -/
def sortedRows (rows : Array Row) : Array Row :=
  let sizes := rows.map (·.size)
  let others := ((List.range rows.size).drop 2).mergeSort fun m n =>
    sizes.getD n 0 ≤ sizes.getD m 0
  selectRows rows ([0, 1] ++ others)

/-! ## What is looked for in a state -/

/-- Sets of tokens that are looked for together, and which of them each state uses. -/
structure Lexicons where
  sets : Array TokenSet := #[]
  used : Array Nat := #[]

namespace Lexicons

/-- The tokens that a row looks for among characters.  Keywords are looked for as names. -/
def wanted (g : Grammar) (r : Row) : TokenSet :=
  TokenSet.ofList <| (r.tokens.toList g.tokens.size).filterMap fun n =>
    match g.tokens[n]? with
    | some t =>
      if t.isKeyword then some (g.tokenNumber .identifier)
      else if t.isPlain || t == .endOfText then some n
      else none
    | none => none

/-- The tokens that occur together with each token in some state. -/
def companions (b : States) : Array TokenSet :=
  let bound := b.court.items.grammar.tokens.size
  b.conducts.foldl (fun cs conduct =>
    (conduct.tokens.toList bound).foldl (fun cs n => cs.modify n (·.union conduct.tokens)) cs)
    (Array.replicate bound .empty)

/-- The tokens that must not be looked for together with each token. -/
def rivals (b : States) (c : Clashes) : Array TokenSet :=
  let together := companions b
  (c.blocked.zip c.overlapping).zipIdx.map fun ((blocked, overlapping), n) =>
    blocked.union (overlapping.without (together.getD n .empty))

/-- Can two sets of tokens be looked for together? -/
def compatible (g : Grammar) (rivals : Array TokenSet) (a b : TokenSet) : Bool :=
  let fits (extra other : TokenSet) : Bool :=
    (extra.toList g.tokens.size).all fun n => (rivals.getD n .empty).disjoint other
  let atEnd := TokenSet.single (g.tokenNumber .endOfText)
  fits ((a.without b).without atEnd) b && fits ((b.without a).without atEnd) a

/-- Adds the tokens that a row wants to the first set that they fit, or as a set of their own. -/
def add (g : Grammar) (rivals : Array TokenSet) (ls : Lexicons) (r : Row) : Lexicons :=
  let tokens := wanted g r
  match ls.sets.findIdx? fun s => s == tokens || compatible g rivals s tokens with
  | some n =>
    { sets := ls.sets.modify n (·.union tokens)
      used := ls.used.push n }
  | none =>
    { sets := ls.sets.push tokens
      used := ls.used.push ls.sets.size }

/-- The sets of tokens that the given rows look for. -/
def ofRows (b : States) (c : Clashes) (rows : Array Row) : Lexicons :=
  let g := b.court.items.grammar
  rows.foldl (add g (rivals b c)) {}

end Lexicons

/-! ## Tables -/

/-- All that is needed to read scripts of a dialect. -/
structure Table where
  grammar : Grammar
  reductions : Array Reduction
  rows : Array Row
  /-- For each state, the tokens to look for among characters. -/
  lexicons : Array (List (Nat × Token))
  lexiconOf : Array Nat

namespace Table

/-- The table that some states make. -/
def ofStates (b : States) : Table :=
  let g := b.court.items.grammar
  let clashes := Clashes.ofItems b.court.items
  let reductions := b.court.reductions
  let rows := sortedRows (usedRows (passOver g reductions (b.rows (b.merged clashes))))
  let lexicons := Lexicons.ofRows b clashes rows
  { grammar := g
    reductions := reductions
    rows := rows
    lexicons := lexicons.sets.map fun s => (s.toList g.tokens.size).filterMap fun n =>
      (g.tokens[n]?).map fun t => (n, t)
    lexiconOf := lexicons.used }

/-- The table of a dialect. -/
def ofDialect (d : Dialect) : Table := ofStates (States.ofGrammar (Grammar.ofDialect d))

end Table

end BundleReach.Script
