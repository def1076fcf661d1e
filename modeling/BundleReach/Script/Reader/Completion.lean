import BundleReach.Script.Reader.Strand

/-!
# Completions

Completing a construct takes the subtrees of its parts off the stack and puts the subtree that
they make on it.  A node may lead down in several ways: then the parts are chosen that make the
better subtree, and where the ways end at different nodes, a strand branches off for each.

* `Reader.complete` — completes a construct on top of a strand.
* `Reader.accept` — ends a strand that has read the whole script.
* `Reader.completeAll` — completes all that can be completed on top of a strand.
-/

namespace BundleReach.Script

namespace Grammar

/-- Is this the number of the whole script? -/
def isScript (g : Grammar) (construct : Nat) : Bool := g.constructs[construct]? == some .script

end Grammar

namespace Setting

/-- The completion of a number. -/
def reduction (k : Setting) (n : Nat) : Reduction := k.table.reductions.getD n default

/-- Does a completion complete the whole script? -/
def isFinal (k : Setting) (x : Reduction) : Bool := k.table.grammar.isScript x.construct

/-- What is done in a state before a subtree, which is a token or something wrong. -/
def cellOf (k : Setting) (state : Nat) (look : Subtree) : Cell :=
  match look.nature with
  | .token n => (k.row state).cell n
  | _ => .none

/-- The state that comes after a construct. -/
def goto (k : Setting) (state construct : Nat) : Nat := (k.row state).gotos.getD construct 0

end Setting

namespace Reader

/-! ## Completing a construct -/

/-- There are no more strands than this in the long run. -/
def maxStrands : Nat := 6

/-- For a moment there may be this many more strands. -/
def strandOverflow : Nat := 4

/-- The better one of the subtrees that the parts on some trails make, with what may stand anywhere
after the parts. -/
def bestParent (k : Setting) (x : Reduction) (place : Nat) :
    List Stack.Trail → Option (Subtree × List Subtree)
  | [] => none
  | t :: ts =>
    let make (t : Stack.Trail) : Subtree × List Subtree :=
      let (parts, extras) := Subtree.splitExtras t.subtrees
      (.join k (.construct x.construct) x.marks place parts, extras)
    some <| ts.foldl (fun best t =>
      let other := make t
      if best.1.isBetter other.1 then other else best) (make t)

/-- Completes a construct for the trails that end at one node: a strand branches off there.
It becomes part of an earlier strand if it can. -/
def completeAbove (k : Setting) (x : Reduction) (v halted : Nat) (r : Reader) (node : Nat)
    (trails : List Stack.Trail) : Reader :=
  let w := r.count
  if maxStrands + strandOverflow + halted < w then r
  else
    match bestParent k x (r.stack.node node).place trails with
    | none => r
    | some (parent, extras) =>
      let next := k.goto (r.stack.node node).state x.construct
      let r := (r.branch v node).push w (parent.weighed x.weight) next
      let r := r.pushAll w extras next
      (r.mergeInto? w ((List.range w).filter (· != v))).getD r

/-- Completes a construct on top of a strand. The strand itself stays as it is. -/
def complete (k : Setting) (x : Reduction) (v : Nat) (r : Reader) : Reader :=
  let groups := Stack.gather (r.stack.trailsOf (r.strand v).top x.count)
  let halted := r.strands.foldl (fun n s => n + s.isHalted.toNat) 0
  groups.foldl (fun r (node, trails) => r.completeAbove k x v halted node trails) r

/-- Completes constructs on top of a strand one after the other, and tells for each the first new
strand, if there is one. -/
def completeEach (k : Setting) (v : Nat) : List Reduction → Reader → List (Option Nat) × Reader
  | [], r => ([], r)
  | x :: xs, r =>
    let count := r.count
    let r := r.complete k x v
    let first := if count < r.count then some count else none
    let (others, r) := completeEach k v xs r
    (first :: others, r)

/-! ## Accepting a script -/

/-- The whole script, made of the subtrees from the bottom of the stack to its top: all else
belongs to the construct among them. -/
def wholeScript? (k : Setting) (ts : List Subtree) : Option Subtree :=
  let after := (ts.reverse.takeWhile (·.isExtra)).reverse
  match (ts.take (ts.length - after.length)).reverse with
  | [] => none
  | .node p parts :: before => some (.join k p.nature p.marks 0 (before.reverse ++ parts ++ after))

/-- Keeps a way of reading the whole script if it is the best one. -/
def offer (k : Setting) (r : Reader) (t : Stack.Trail) : Reader :=
  let root := wholeScript? k t.subtrees
  { r with
    accepted := r.accepted + 1
    best := match r.best, root with
      | none, t => t
      | some b, some t => some (if b.isBetter t then t else b)
      | some b, none => some b }

/-- Ends a strand that has read the whole script. -/
def accept (k : Setting) (look : Subtree) (v : Nat) (r : Reader) : Reader :=
  let r := r.push v look 1
  ((r.stack.wholeTrails (r.strand v).top).foldl (offer k) r).halt v

/-! ## Completing all -/

/-- The completions that a state allows before one of the given tokens, one of each construct and
number of parts, and whether one of the tokens can be read. -/
def options (k : Setting) (state : Nat) (tokens : List Nat) : List Reduction × Bool :=
  let cells := tokens.map (k.row state).cell
  let readable := cells.any fun c =>
    match c.shift with
    | .taken _ | .lost => true
    | _ => false
  let completions := (cells.flatMap (·.reductions)).eraseDups.map k.reduction
  let distinct := completions.foldl (fun (xs : List Reduction) x =>
    if k.isFinal x || x.count == 0 ||
        xs.any (fun y => y.construct == x.construct && y.count == x.count) then xs
    else xs ++ [x]) []
  (distinct, readable)

/-- Completes all that can be completed before one of the given tokens, first on top of the strand
`start`, then on top of the strands `v` and later ones, which branched off.  The answer tells
whether one of the tokens can be read then.  With `strict`, strands on which none of them can be
read are forgotten.  `fuel` bounds the number of completions, and `turn` counts them. -/
def completeAllFrom (k : Setting) (tokens : List Nat) (strict : Bool) (start before : Nat) :
    Nat → Nat → Nat → Bool → Reader → Bool × Reader
  | 0, _, _, readable, r => (readable, r)
  | fuel + 1, turn, v, readable, r =>
    let count := r.count
    if count ≤ v then (readable, r)
    else
      match r.mergeInto? v ((List.range v).drop before) with
      | some r => completeAllFrom k tokens strict start before fuel (turn + 1) v readable r
      | none =>
        let (completions, canRead) := options k (r.state v) tokens
        let (firsts, r) := completeEach k v completions r
        let next := if v = start then count else v + 1
        if canRead then completeAllFrom k tokens strict start before fuel (turn + 1) next true r
        else
          match firsts.getLast?.join with
          | some w =>
            if turn < maxStrands then
              completeAllFrom k tokens strict start before fuel (turn + 1) v readable
                (r.replace v w)
            else
              completeAllFrom k tokens strict start before fuel (turn + 1) next readable
                (if strict then r.remove v else r)
          | none =>
            completeAllFrom k tokens strict start before fuel (turn + 1) next readable
              (if strict then r.remove v else r)

/-- Completes all that can be completed on top of a strand before a token, or before any token at
all, and tells whether it can be read then. -/
def completeAll (k : Setting) (v : Nat) (token? : Option Nat) (r : Reader) : Bool × Reader :=
  let tokens := match token? with
    | some n => [n]
    | none => (List.range k.table.grammar.tokens.size).drop 1
  completeAllFrom k tokens token?.isSome v r.count k.patience 0 v false r

end Reader

end BundleReach.Script
