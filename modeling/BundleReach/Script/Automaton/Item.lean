import BundleReach.Script.Grammar.Production
import BundleReach.Script.Pool
import BundleReach.Script.Automaton.TokenSet

/-!
# Items

An item is a production in progress: what has been read of it and what is still to come.  Two
productions of one construct share an item from where they go on alike, provided that the nodes
they have read play the same roles.

* `Item` — a production in progress.
* `Items` — all the items of a grammar, numbered in the order in which they are ranked: by how much
  has been read, then by construct, then by production.
* `Items.first`, `Items.last` — the tokens that a symbol can begin or end with.
* `Items.leads` — the constructs that can stand at the beginning of a construct, each with the
  tokens that can follow it there.
-/

namespace BundleReach.Script

/-- The kind and the role that a production gives to one of its parts. -/
abbrev Mark := Option Kind × Option Role

/-- The mark of a step. -/
def Step.mark (s : Step) : Mark := (s.kind, s.role)

/-- A production in progress. -/
structure Item where
  /-- The number of the construct among the constructs. -/
  construct : Nat
  weight : Int
  length : Nat
  /-- The precedence of the last step that was read. -/
  level : Option Level
  grouping : Option Grouping
  /-- The marks of what has been read. -/
  marks : List Mark
  /-- What is still to come. -/
  rest : List Step
  deriving DecidableEq, Hashable

/-- A production with its first steps read. -/
def Item.of (construct : Nat) (p : Production) (read : Nat) : Item :=
  let last := if read = 0 then none else p.steps[read - 1]?
  { construct := construct
    weight := p.weight
    length := p.steps.length
    level := last.bind (·.level)
    grouping := last.bind (·.grouping)
    marks := (p.steps.take read).map (·.mark)
    rest := p.steps.drop read }

/-- The items of a grammar. -/
structure Items where
  grammar : Grammar
  all : Array Item
  /-- The number of the next symbol of each item, if it has one. -/
  next : Array (Option Nat)
  /-- The item after the next symbol. -/
  after : Array Nat
  /-- The items at the beginning of each construct. -/
  starts : Array (List Nat)
  /-- The tokens that each symbol can begin with. -/
  first : Array TokenSet
  /-- The tokens that each symbol can end with. -/
  last : Array TokenSet
  leads : Array (List (Nat × TokenSet × Bool))

namespace Items

/-! ## Numbering -/

/-- Items that have been numbered so far. -/
abbrev Numbering := Pool Item

/-- Numbers the items of all productions with the given number of steps read. -/
def Numbering.add (productions : List (Nat × Production)) (n : Numbering) (read : Nat) :
    Numbering :=
  productions.foldl (fun n (c, p) =>
    if read ≤ p.steps.length then (n.number (.of c p read)).2 else n) n

/-- The productions of a grammar, each with the number of its construct. -/
def productionsOf (g : Grammar) : List (Nat × Production) :=
  g.productions.toList.zipIdx.flatMap fun (ps, c) => ps.map fun p => (c, p)

/-- All the items of a grammar, in the order of their ranks. -/
def numbering (g : Grammar) : Numbering :=
  let productions := productionsOf g
  let longest := productions.foldl (fun m (_, p) => max m p.steps.length) 0
  (List.range (longest + 1)).foldl (·.add productions) {}

/-- The item that an item becomes when its next symbol is read. -/
def advanced (i : Item) : Item :=
  match i.rest with
  | [] => i
  | s :: rest =>
    { i with level := s.level, grouping := s.grouping, marks := i.marks ++ [s.mark], rest := rest }

/-! ## Beginnings and ends -/

/-- A token that stands for names where reserved words are names too. -/
def unreservedName (g : Grammar) : Nat := g.tokens.size

/-- Adds to each construct what the given end of its productions contributes. -/
def addEnds (g : Grammar) (productions : List (Nat × Production))
    (endOf : List Step → Option Step) (contribution : Array TokenSet → Step → TokenSet)
    (sets : Array TokenSet) : Array TokenSet :=
  productions.foldl (fun sets (c, p) =>
    match endOf p.steps with
    | none => sets
    | some s => sets.modify (g.tokens.size + c) (·.union (contribution sets s))) sets

/-- Repeats a step until it changes nothing, at most `fuel` times. -/
def settle {α : Type} [BEq α] (step : α → α) : Nat → α → α
  | 0, a => a
  | fuel + 1, a =>
    let b := step a
    if b == a then a else settle step fuel b

/-- The tokens that stand at one end of each symbol. -/
def ends (g : Grammar) (endOf : List Step → Option Step)
    (contribution : Array TokenSet → Step → TokenSet) : Array TokenSet :=
  let count := g.tokens.size + g.constructs.size
  let own := (Array.range count).map fun n =>
    if n < g.tokens.size then TokenSet.single n else .empty
  settle (addEnds g (productionsOf g) endOf contribution) count own

/-- What a first step contributes: its own first tokens, and the mark of a name that may be a
reserved word. -/
def firstContribution (g : Grammar) (sets : Array TokenSet) (s : Step) : TokenSet :=
  let own := sets.getD (g.number s.symbol) .empty
  if s.unreserved && s.symbol == .token .identifier then own.insert (unreservedName g) else own

/-! ## Leading constructs -/

/-- The constructs that begin the productions of a construct, each with what follows it there, or
with nothing if it is the whole production. -/
def beginnings (g : Grammar) (first : Array TokenSet) (ps : List Production) :
    List (Nat × Option TokenSet) :=
  (ps.filterMap fun p =>
    match p.steps with
    | [] => none
    | s :: rest =>
      let n := g.number s.symbol
      if n < g.tokens.size then none
      else some (n - g.tokens.size, rest.head?.map fun t => first.getD (g.number t.symbol) 0))
    |>.eraseDups

/-- For each construct, the tokens known to follow it and whether it may come last. -/
abbrev Follows := Array (TokenSet × Bool)

/-- What is to be added: tokens that follow a construct, or that it may come last. -/
abbrev Addition := Nat × Option TokenSet

/-- Adds something, if it is news. -/
def Follows.add (f : Follows) (a : Addition) : Option Follows :=
  let (tokens, isLast) := f.getD a.1 (.empty, false)
  match a.2 with
  | none => if isLast then none else some (f.setIfInBounds a.1 (tokens, true))
  | some more =>
    let both := tokens.union more
    if both == tokens then none else some (f.setIfInBounds a.1 (both, isLast))

/-- Adds things and all that they entail; `fuel` bounds the number of additions. -/
def spread (table : Array (List (Nat × Option TokenSet))) :
    Nat → List Addition → Follows → Follows
  | 0, _, f => f
  | _, [], f => f
  | fuel + 1, a :: work, f =>
    match f.add a with
    | none => spread table fuel work f
    | some f =>
      let entailed := (table.getD a.1 []).map fun (c, after) => (c, after.or a.2)
      spread table fuel (entailed ++ work) f

/-- The constructs that can stand at the beginning of a construct, itself included: each with the
tokens that can follow it there and whether it can be all of the construct. -/
def leadsOf (table : Array (List (Nat × Option TokenSet))) (construct : Nat) :
    List (Nat × TokenSet × Bool) :=
  let none := Array.replicate table.size (TokenSet.empty, false)
  let found := spread table 1000000 [(construct, .none)] none
  found.toList.zipIdx.filterMap fun ((tokens, isLast), c) =>
    if tokens == 0 && !isLast then .none else some (c, tokens, isLast)

/-- The items of a grammar. -/
def ofGrammar (g : Grammar) : Items :=
  let n := numbering g
  let first := ends g List.head? (firstContribution g)
  let last := ends g List.getLast? fun sets s => sets.getD (g.number s.symbol) .empty
  let table := g.productions.map (beginnings g first)
  { grammar := g
    all := n.all
    next := n.all.map fun i => i.rest.head?.map fun s => g.number s.symbol
    after := n.all.map fun i => n.known.getD (advanced i) 0
    starts := (g.productions.toList.zipIdx.map fun (ps, c) =>
      (ps.map fun p => n.known.getD (.of c p 0) 0).eraseDups).toArray
    first := first
    last := last
    leads := (Array.range g.constructs.size).map (leadsOf table) }

/-- Is the number that of a token? -/
def isToken (t : Items) (symbol : Nat) : Bool := symbol < t.grammar.tokens.size

end Items

end BundleReach.Script
