import BundleReach.Script.Pool
import BundleReach.Script.Grammar.Whole

/-!
# Productions

A definition is spelled out as its productions: the sequences of symbols that its rule allows.  A
repetition becomes a symbol of its own, and a construct that is to be replaced by what it is made
of is replaced.

* `Symbol`, `Step`, `Production` — a sequence of symbols, with what is to be known of each.
* `Rule.spellOut` — the productions of a rule.
* `Grammar.ofDialect` — the productions of a dialect, with its symbols numbered.
-/

namespace BundleReach.Script

/-- A symbol of a production. -/
inductive Symbol where
  | token (t : Token)
  | head (h : Head)
  /-- One or more of what the repetition of this number repeats. -/
  | again (n : Nat)
  /-- A whole script. -/
  | script
  deriving DecidableEq, Hashable, Repr

/-- A place in a production. -/
structure Step where
  symbol : Symbol
  level : Option Level
  grouping : Option Grouping
  /-- The kind that the node here has in place of its own. -/
  kind : Option Kind
  role : Option Role
  /-- May a reserved word be a name here? -/
  unreserved : Bool
  deriving DecidableEq, Hashable, Repr

/-- One way to make up a construct. -/
structure Production where
  steps : List Step
  weight : Int
  deriving DecidableEq, Hashable, Repr

namespace Production

/-- The weight that prevails when two meet: the first one, unless the other is greater in size. -/
def prevailing (a b : Int) : Int := if a.natAbs < b.natAbs then b else a

/-- One production after the other. -/
def append (a b : Production) : Production := ⟨a.steps ++ b.steps, prevailing a.weight b.weight⟩

instance : Append Production := ⟨append⟩

/-- The production with its last step changed. -/
def changeLast (f : Step → Step) (p : Production) : Production :=
  match p.steps.getLast? with
  | none => p
  | some s => { p with steps := p.steps.dropLast ++ [f s] }

/-- All ways to put one of the first productions before one of the others. -/
def products (as bs : List Production) : List Production := as.flatMap fun a => bs.map (a ++ ·)

end Production

/-! ## Spelling out rules -/

/-- What surrounds a part of a rule. -/
structure Surroundings where
  level : Option Level := none
  grouping : Option Grouping := none
  kind : Option Kind := none
  role : Option Role := none
  unreserved : Bool := false

/-- A step in the given surroundings. -/
def Surroundings.step (s : Surroundings) (symbol : Symbol) : Step :=
  ⟨symbol, s.level, s.grouping, s.kind, s.role, s.unreserved⟩

/-- The repetitions met so far: for each, the productions of what it repeats. -/
abbrev Repetitions := Array (List Production)

/-- The number of a repetition, new or known. -/
def Repetitions.number (content : List Production) : StateM Repetitions Nat := do
  let known ← get
  match known.findIdx? (· == content) with
  | some n => return n
  | none =>
    set (known.push content)
    return known.size

mutual

/-- The productions of a rule.  A precedence reaches beyond its part only where the part ends the
whole rule: elsewhere the last step of the part belongs to the surroundings again. -/
def Rule.spellOut (s : Surroundings) (last : Bool) : Rule → StateM Repetitions (List Production)
  | .nothing => return [⟨[], 0⟩]
  | .word text => return [⟨[s.step (.token (.word text))], 0⟩]
  | .token t => return [⟨[s.step (.token t)], 0⟩]
  | .head h => return [⟨[s.step (.head h)], 0⟩]
  | .seq rules => spellOutSequence s last rules
  | .choice rules => spellOutChoice s last rules
  | .many1 rule => do
    let content ← rule.spellOut {} true
    return [⟨[s.step (.again (← Repetitions.number content))], 0⟩]
  | .field role rule => rule.spellOut { s with role := some role } last
  | .renamed kind rule => rule.spellOut { s with kind := some kind } last
  | .prec level grouping rule => do
    let inner := { s with level := level.or s.level, grouping := grouping.or s.grouping }
    let ps ← rule.spellOut inner last
    return if last then ps
      else ps.map (·.changeLast fun x => { x with level := s.level, grouping := s.grouping })
  | .weighed weight rule => do
    let ps ← rule.spellOut s last
    return ps.map fun p => { p with weight := Production.prevailing weight p.weight }
  | .unreserved rule => rule.spellOut { s with unreserved := true } last

/-- The productions of several rules, one after the other. -/
def spellOutSequence (s : Surroundings) (last : Bool) :
    List Rule → StateM Repetitions (List Production)
  | [] => return [⟨[], 0⟩]
  | r :: rs => do
    let here ← r.spellOut s (last && rs.isEmpty)
    let after ← spellOutSequence s last rs
    return Production.products here after

/-- The productions of several rules, one instead of the other. -/
def spellOutChoice (s : Surroundings) (last : Bool) :
    List Rule → StateM Repetitions (List Production)
  | [] => return []
  | r :: rs => return (← r.spellOut s last) ++ (← spellOutChoice s last rs)

end

/-- The distinct productions of the rule of a definition. -/
def Rule.productions (r : Rule) : StateM Repetitions (List Production) :=
  return distinct (← r.spellOut {} true)

/-! ## Replacing constructs by what they are made of -/

/-- The productions of constructs that are to be replaced. -/
abbrev Inlined := List (Part × List Production)

/-- The productions that stand for a symbol, if it is to be replaced. -/
def Inlined.find? (table : Inlined) : Symbol → Option (List Production)
  | .head (.part p) => table.lookup p
  | _ => none

/-- The production that takes the place of a step. -/
def Production.inPlaceOf (s : Step) (p : Production) : Production :=
  let rename (x : Step) : Step := { x with kind := s.kind.or x.kind, role := s.role.or x.role }
  let surround (x : Step) : Step :=
    { x with level := x.level.or s.level, grouping := x.grouping.or s.grouping }
  Production.changeLast surround { p with steps := p.steps.map rename }

/-- Replaces what is to be replaced in some steps; `fuel` bounds the number of steps and how
deeply replacements mention each other. -/
def replaceSteps (table : Inlined) : Nat → List Step → List Production
  | 0, steps => [⟨steps, 0⟩]
  | _, [] => [⟨[], 0⟩]
  | fuel + 1, s :: steps =>
    let heres := match table.find? s.symbol with
      | none => [⟨[s], 0⟩]
      | some ps => ps.flatMap fun p =>
        (replaceSteps table fuel (p.inPlaceOf s).steps).map fun q =>
          { q with weight := Production.prevailing p.weight q.weight }
    Production.products heres (replaceSteps table fuel steps)

/-- More than the steps of any production and the depth of replacements together. -/
def replacementFuel : Nat := 100

/-- The productions that a production stands for. -/
def Production.replaced (table : Inlined) (p : Production) : List Production :=
  (replaceSteps table replacementFuel p.steps).map fun q =>
    { q with weight := prevailing p.weight q.weight }

/-! ## Numbered grammars -/

/-- The words of a rule, in the order in which it mentions them. -/
def Rule.words : Rule → List Token
  | .nothing | .token _ | .head _ => []
  | .word text => [.word text]
  | .seq rules | .choice rules => wordsOf rules
  | .many1 rule | .field _ rule | .renamed _ rule | .prec _ _ rule | .weighed _ rule
  | .unreserved rule => rule.words
where
  wordsOf : List Rule → List Token
    | [] => []
    | r :: rs => r.words ++ wordsOf rs

/-- The tokens that a definition introduces. -/
def Definition.tokens : Definition → List Token
  | .rule _ r | .inlined _ r => r.words
  | .token t => [t]

/-- The tokens that depend on what the grammar expects, and are looked for before others. -/
def contextualTokens (d : Dialect) : List Token :=
  [.omittedSemicolon, .templatePiece, .questionMark, .markupComment] ++
    d.choose [.markupText] [.omittedBody]

/-- A grammar whose symbols are numbered: first the tokens, then the constructs. -/
structure Grammar where
  dialect : Dialect
  /-- The tokens: first the end of the text, then names, then what definitions introduce. -/
  tokens : Array Token
  /-- The constructs: those that are defined, then repetitions, then the whole script. -/
  constructs : Array Symbol
  /-- The productions of each construct. -/
  productions : Array (List Production)
  numbers : Std.HashMap Symbol Nat

namespace Grammar

/-- The number of a symbol. -/
def number (g : Grammar) (s : Symbol) : Nat := g.numbers.getD s 0

/-- The number of a token. -/
def tokenNumber (g : Grammar) (t : Token) : Nat := g.number (.token t)

/-- The tokens of a dialect. -/
def tokensOf (d : Dialect) (ds : List Definition) : List Token :=
  let introduced := (ds.flatMap (·.tokens)).eraseDups
  [.endOfText, .identifier] ++ introduced.filter (· != .identifier) ++ contextualTokens d

/-- The productions that a repetition has: it is repeated twice, or what it repeats stands once. -/
def repetitionProductions (n : Nat) (content : List Production) : List Production :=
  let again := Surroundings.step {} (.again n)
  ⟨[again, again], 0⟩ :: content

/-- The productions of some definitions, and those of the constructs that are to be replaced. -/
def spellOut : List Definition →
    StateM Repetitions (List (Symbol × List Production) × Inlined)
  | [] => return ([], [])
  | .rule h r :: ds => do
    let ps ← r.productions
    let (constructs, table) ← spellOut ds
    return ((.head h, ps) :: constructs, table)
  | .inlined p r :: ds => do
    let ps ← r.productions
    let (constructs, table) ← spellOut ds
    return (constructs, (p, ps) :: table)
  | .token _ :: ds => spellOut ds

/-- The grammar of a dialect. -/
def ofDialect (d : Dialect) : Grammar :=
  let ds := definitions d
  let ((defined, table), repetitions) := (spellOut ds).run #[]
  let repeated := repetitions.toList.zipIdx.map fun (content, n) =>
    (Symbol.again n, repetitionProductions n content)
  let whole := Surroundings.step {} ((defined.map (·.1)).headD .script)
  let all := defined ++ repeated ++ [(Symbol.script, [⟨[whole], 0⟩])]
  let tokens := tokensOf d ds
  let symbols := tokens.map Symbol.token ++ all.map (·.1)
  { dialect := d
    tokens := tokens.toArray
    constructs := (all.map (·.1)).toArray
    productions := (all.map fun c => distinct (c.2.flatMap (·.replaced table))).toArray
    numbers := Std.HashMap.ofList symbols.zipIdx }

end Grammar

end BundleReach.Script
