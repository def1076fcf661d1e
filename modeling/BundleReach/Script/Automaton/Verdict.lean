import BundleReach.Script.Automaton.Core

/-!
# Verdicts

Before a token, the items of a core may call for different things: to complete one construct or
another, or to read on.  Precedence and grouping decide between them where they can; what they
leave undecided is left to be tried side by side.

* `Reduction` — the completion of a construct.
* `Precedence` — the orders of precedence, over numbered constructs.
* `Verdict` — what is to be done before a token.
* `Core.verdicts` — the verdicts of a core, given the tokens that may follow what it completes.
-/

namespace BundleReach.Script

/-- The completion of a construct. -/
structure Reduction where
  construct : Nat
  /-- How many parts it has. -/
  count : Nat
  weight : Int
  /-- The marks of its parts, up to the last part that has one. -/
  marks : List Mark
  deriving DecidableEq, Hashable, Inhabited

/-- The marks up to the last one that says something. -/
def trimmed (marks : List Mark) : List Mark :=
  (marks.reverse.dropWhile (· == (none, none))).reverse

/-- What a completed item completes. -/
def Item.reduction (i : Item) : Reduction := ⟨i.construct, i.length, i.weight, trimmed i.marks⟩

/-! ## Precedence -/

/-- The precedence of some items: the level of the last of them, and their constructs. -/
structure Precedence where
  level : Option Level
  constructs : List Nat

/-- A place in an order of precedence, with constructs as numbers. -/
inductive Place where
  | level (l : Level)
  | construct (n : Nat)

/-- Is this the place of items with the given precedence? -/
def Place.holds (p : Precedence) : Place → Bool
  | level l => p.level == some l
  | construct n => p.constructs.contains n

/-- An order of precedence of a grammar, with constructs as numbers. -/
def placesOf (g : Grammar) (order : List Rank) : List Place :=
  order.filterMap fun
    | .level l => some (.level l)
    | .head h => (g.numbers[Symbol.head h]?).map fun n => .construct (n - g.tokens.size)

/-- Which of two precedences an order puts first; `a` and `b` tell whether each one has been met
already. -/
def decideBy (p q : Precedence) : Bool → Bool → List Place → Option Ordering
  | _, _, [] => none
  | a, b, place :: places =>
    if place.holds p then if b then some .lt else decideBy p q true b places
    else if place.holds q then if a then some .gt else decideBy p q a true places
    else decideBy p q a b places

/-- How two precedences compare: by number, or by the first order that knows both. -/
def Precedence.compare (orders : List (List Place)) (p q : Precedence) : Ordering :=
  match p.level, q.level with
  | some (.number a), some (.number b) => Ord.compare a b
  | some (.number a), none => Ord.compare a 0
  | none, some (.number b) => Ord.compare 0 b
  | _, _ => (orders.findSome? (decideBy p q false false)).getD .eq

/-! ## Completions against each other -/

/-- The completions that have prevailed so far before a token. -/
structure Standing where
  reductions : List Nat
  precedence : Precedence
  left : Bool
  right : Bool
  ungrouped : Bool

namespace Standing

/-- Nothing has been completed. -/
def none : Standing := ⟨[], ⟨.none, []⟩, false, false, false⟩

/-- One more completion, of the given item. -/
def add (s : Standing) (i : Item) (reduction : Nat) : Standing where
  reductions := s.reductions ++ [reduction]
  precedence := ⟨i.level, i.construct :: s.precedence.constructs⟩
  left := s.left || i.grouping == some .left
  right := s.right || i.grouping == some .right
  ungrouped := s.ungrouped || i.grouping.isNone

/-- A completion is put beside those of the same precedence, takes the place of lower ones, and
gives way to higher ones. -/
def meet (orders : List (List Place)) (s : Standing) (i : Item) (reduction : Nat) : Standing :=
  if s.reductions.isEmpty then s.add i reduction
  else match Precedence.compare orders ⟨i.level, [i.construct]⟩ s.precedence with
    | .gt => none.add i reduction
    | .eq => s.add i reduction
    | .lt => s

end Standing

/-! ## Completions against reading on -/

/-- Whether a token is read. -/
inductive Reading where
  | refused
  | taken
  /-- Read as part of a repetition that may as well be closed first. -/
  | repeated
  /-- Passed over: it may stand anywhere. -/
  | skipped
  deriving DecidableEq, Hashable, Inhabited

/-- What is to be done before a token. -/
structure Verdict where
  /-- The numbers of the completions to try. -/
  reductions : List Nat
  reading : Reading
  deriving DecidableEq, Inhabited

/-- Decides between completions and reading on, where `contenders` are the items that read on and
have been begun. -/
def judge (orders : List (List Place)) (isRepetition : Nat → Bool) (s : Standing)
    (completed : List Nat) (contenders : List Item) : Verdict :=
  let constructs := ((contenders.map (·.construct)) ++ completed).eraseDups
  let comparisons := contenders.map fun i =>
    Precedence.compare orders ⟨i.level, [i.construct]⟩ s.precedence
  let higher := comparisons.contains .gt
  let lower := comparisons.contains .lt
  let readOn : Verdict := ⟨[], .taken⟩
  let complete : Verdict := ⟨s.reductions, .refused⟩
  match constructs with
  | [c] => if isRepetition c then ⟨s.reductions, .repeated⟩ else
    settled higher lower readOn complete
  | _ => settled higher lower readOn complete
where
  /-- The decision where no repetition is concerned. -/
  settled (higher lower : Bool) (readOn complete : Verdict) : Verdict :=
    if higher && !lower then readOn
    else if lower && !higher then complete
    else if !lower && !higher && s.left && !s.right && !s.ungrouped then complete
    else if !lower && !higher && s.right && !s.left && !s.ungrouped then readOn
    else ⟨s.reductions, .taken⟩

/-! ## The verdicts of a core -/

/-- What is to be known of a grammar to pass verdicts. -/
structure Court where
  items : Items
  orders : List (List Place)
  reductions : Array Reduction
  /-- The number of the completion of each item. -/
  reductionOf : Array Nat

namespace Court

/-- The distinct completions of some items, and the number of each one's. -/
def numberReductions (items : List Item) : Array Reduction × Array Nat :=
  let (all, _, numbers) := items.foldl
    (fun (all, known, numbers) i =>
      if !i.rest.isEmpty then (all, known, numbers.push 0)
      else match known[i.reduction]? with
        | some n => (all, known, numbers.push n)
        | none =>
          (all.push i.reduction, known.insert i.reduction all.size, numbers.push all.size))
    ((#[] : Array Reduction), (∅ : Std.HashMap Reduction Nat), (#[] : Array Nat))
  (all, numbers)

/-- The court of a grammar. -/
def ofItems (t : Items) : Court :=
  let (all, numbers) := numberReductions t.all.toList
  { items := t
    orders := (precedenceOrders t.grammar.dialect).map (placesOf t.grammar)
    reductions := all
    reductionOf := numbers }

/-- Is the construct the repetition of another one? -/
def isRepetition (court : Court) (construct : Nat) : Bool :=
  match court.items.grammar.constructs[construct]? with
  | some (.again _) => true
  | _ => false

/-- Is the construct a whole script? -/
def isScript (court : Court) (construct : Nat) : Bool :=
  court.items.grammar.constructs[construct]? == some .script

/-- An item, by its number. -/
def item (court : Court) (n : Nat) : Item :=
  court.items.all.getD n ⟨0, 0, 0, none, none, [], []⟩

/-- The standing of some completions, in order. -/
def standing (court : Court) (completed : List Nat) : Standing :=
  completed.foldl (fun s n =>
    s.meet court.orders (court.item n) (court.reductionOf.getD n 0)) .none

/-- The verdict before a token that can be read. -/
def judgeToken (court : Court) (core : Core) (completed : List Nat) (s : Standing)
    (token : Nat) : Verdict :=
  let begun := core.kernel.toList.filter fun n =>
    match court.items.next.getD n none with
    | some symbol => (court.items.first.getD symbol .empty).has token
    | none => false
  let contenders := (begun.map court.item).filter fun i => !court.isScript i.construct
  let completing := (completed.map fun n => (court.item n).construct).filter fun c =>
    !court.isScript c
  judge court.orders court.isRepetition s completing contenders

end Court

/-- Splits some tokens by whether the next item may be followed by them. -/
def refine (groups : List (TokenSet × List Nat)) (item : Nat) (tokens : TokenSet) :
    List (TokenSet × List Nat) :=
  let known := groups.foldl (fun s g => s.union g.1) .empty
  let split := groups.flatMap fun (group, items) =>
    [(group.inter tokens, items ++ [item]), (group.without tokens, items)]
  (split ++ [(tokens.without known, [item])]).filter (·.1 != 0)

/-- The tokens before which each verdict holds. -/
abbrev Verdicts := List (Verdict × TokenSet)

/-- Adds tokens to those of a verdict. -/
def Verdicts.add (vs : Verdicts) (v : Verdict) (tokens : TokenSet) : Verdicts :=
  match vs with
  | [] => [(v, tokens)]
  | (w, known) :: rest =>
    if v = w then (w, known.union tokens) :: rest else (w, known) :: Verdicts.add rest v tokens

/-- The tokens that a core can read. -/
def Core.readable (core : Core) (t : Items) : TokenSet :=
  core.moves.foldl (fun s m => if t.isToken m.symbol then s.insert m.symbol else s) .empty

/-- The verdicts of a core, given what may follow each of the constructs that it completes. -/
def Core.verdicts (core : Core) (court : Court) (followers : List TokenSet) : Verdicts :=
  let bound := court.items.grammar.tokens.size
  let everything := (1 <<< bound) - 1
  let readable := core.readable court.items
  let completed := (core.completed.toList.map (·.item)).zip followers
  let groups := completed.foldl (fun gs (n, tokens) => refine gs n (tokens.inter everything)) []
  let contested := groups.foldl (fun s g => s.union g.1) .empty
  let free : Verdicts := if (readable.without contested) == 0 then []
    else [(⟨[], .taken⟩, readable.without contested)]
  let extras := [Token.comment, .markupComment].map court.items.grammar.tokenNumber
  let judged := groups.foldl (fun (vs : Verdicts) (tokens, items) =>
    let s := court.standing items
    let closing := tokens.without readable
    let vs := if closing == 0 then vs else vs.add ⟨s.reductions, .refused⟩ closing
    ((tokens.inter readable).toList bound).foldl (fun vs token =>
      vs.add (court.judgeToken core items s token) (.single token)) vs) free
  judged ++ [(⟨[], .skipped⟩, TokenSet.ofList extras)]

end BundleReach.Script
