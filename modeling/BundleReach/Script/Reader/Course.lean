import BundleReach.Script.Reader.Lookahead
import BundleReach.Script.Reader.Recovery

/-!
# The course of reading

The strands take turns: each reads on until it is ahead of the others, and then those are given up
that are clearly worse than another one.

* `Reader.advance` — reads one token on a strand.
* `Reader.thinOut` — gives up strands.
* `Setting.script?` — the best way of reading the whole source.
-/

namespace BundleReach.Script

namespace Reader

/-! ## Reading a token -/

/-- Stops a strand before a token that fits nowhere. -/
def pause (look : Subtree) (v : Nat) (r : Reader) : Reader :=
  let count := (r.node v).count
  r.adjust v fun s => { s with condition := .paused look, countAtFault := count }

/-- Reads a token that cannot be read as it is: a keyword may yet be a name. -/
def asName? (k : Setting) (look : Subtree) (state : Nat) : Option Subtree :=
  let g := k.table.grammar
  match look.nature with
  | .token n =>
    match g.tokens[n]? with
    | some t =>
      let name := g.tokenNumber .identifier
      if t.isKeyword && !(k.row state).reserves g t && (k.row state).expects name then
        some (look.asToken g name)
      else none
    | none => none
  | _ => none

/-- Does on a strand what its state does before a token; `fuel` bounds the number of
completions. -/
def take (k : Setting) (v : Nat) : Nat → Subtree → Reader → Reader
  | 0, _, r => r.halt v
  | fuel + 1, look, r =>
    let state := r.state v
    let cell := k.cellOf state look
    let completions := cell.reductions.map k.reduction
    let (firsts, r) := completeEach k v (completions.takeWhile fun x => !k.isFinal x) r
    if completions.any k.isFinal then r.accept k look v
    else
      match cell.shift with
      | .taken next => r.push v look next
      | .skipped => r.push v look.asExtra state
      | .lost => r.recover k look v
      | .refused | .repeated _ =>
        match firsts.reverse.findSome? id with
        | some w => take k v fuel look (r.replace v w)
        | none =>
          if !firsts.isEmpty then r.halt v
          else
            match asName? k look state with
            | some look => take k v fuel look r
            | none => if state = 0 then r.recover k look v else r.pause look v

/-- Reads one token on a strand. -/
def advance (k : Setting) (v : Nat) (r : Reader) : Reader :=
  take k v k.patience (k.lookahead (r.state v) (r.place v) (r.hasAdvanced v)) r

/-- Reads on a strand until it is ahead of the place that others have reached, and tells what place
has been reached then; `fuel` bounds the number of tokens. -/
def run (k : Setting) (v : Nat) : Nat → Nat → Reader → Nat × Reader
  | 0, reached, r => (reached, r)
  | fuel + 1, reached, r =>
    if (r.strand v).isActive then
      let r := r.advance k v
      let place := r.place v
      if reached < place || (v != 0 && place == reached) then (place, r)
      else run k v fuel reached r
    else (reached, r)

/-- Reads on all strands, one after the other; `fuel` bounds their number. -/
def runAll (k : Setting) : Nat → Nat → Nat → Reader → Nat × Reader
  | 0, _, reached, r => (reached, r)
  | fuel + 1, v, reached, r =>
    if v < r.count then
      let (reached, r) := r.run k v k.patience reached
      runAll k fuel (v + 1) reached r
    else (reached, r)

/-! ## Giving up strands -/

/-- Exchanges two strands. -/
def swap (r : Reader) (v w : Nat) : Reader :=
  { r with strands := r.strands.swapIfInBounds v w }

/-- Compares a strand with the earlier ones from `w` on, of which there are `n`, and gives up the
worse one where this is clear.  The answer is the place of the strand to look at next. -/
def contest (own : Status) : Nat → Nat → Reader → Nat × Reader
  | 0, w, r => (w + 1, r)
  | n + 1, w, r =>
    let v := w + n + 1
    let (other, r) := r.status w
    match other.compare own with
    | .takeFirst => (v, r.remove v)
    | .takeSecond => contest own n w (r.remove w)
    | .preferSecond =>
      match r.merge? w v with
      | some r => (v, r)
      | none => contest own n (w + 1) (r.swap v w)
    | _ =>
      match r.merge? w v with
      | some r => (v, r)
      | none => contest own n (w + 1) r

/-- The smaller of two costs, if there are any. -/
def cheaper : Option Nat → Nat → Option Nat
  | none, c => some c
  | some b, c => some (min b c)

/-- Compares each strand from `v` on with the earlier ones, and gives the least cost of one that
makes sense; `fuel` bounds the number of strands. -/
def contestAll : Nat → Nat → Option Nat → Reader → Option Nat × Reader
  | 0, _, least, r => (least, r)
  | fuel + 1, v, least, r =>
    if r.count ≤ v then (least, r)
    else if (r.strand v).isHalted then contestAll fuel v least (r.remove v)
    else
      let (own, r) := r.status v
      let least := if own.isLost then least else cheaper least own.cost
      let (next, r) := contest own v 0 r
      contestAll fuel next least r

/-- The number of ways of reading the whole script that are found before mistakes are no longer
mended. -/
def maxAccepted : Nat := 6

/-- Lets the first paused strand go on unless another one is before it, and forgets all other
paused ones among `n` strands from `v` on.  The answer is what the strand costs that goes on. -/
def resume (k : Setting) : Nat → Nat → Bool → Option Nat → Reader → Option Nat × Reader
  | 0, _, _, least, r => (least, r)
  | n + 1, v, going, least, r =>
    match (r.strand v).condition with
    | .paused look =>
      if !going && r.accepted < maxAccepted then
        let least := some (r.cost v)
        let r := (r.adjust v fun s => { s with condition := .active }).breakDown k look v
        resume k n (v + 1) true least r
      else resume k n v going least (r.remove v)
    | _ => resume k n (v + 1) true least r

/-- Gives up strands that are clearly worse than others, and lets a paused one go on if there is
none that makes sense.  The answer is the least cost of a strand. -/
def thinOut (k : Setting) (r : Reader) : Option Nat × Reader :=
  let (least, r) := contestAll (r.count + 1) 0 none r
  let r := { r with strands := r.strands.take maxStrands }
  resume k r.count 0 false least r

/-! ## Reading a script -/

/-- Reads until no strand can be better than the best way of reading the whole script; `fuel` bounds
the number of turns. -/
def finish (k : Setting) : Nat → Nat → Reader → Reader
  | 0, _, r => r
  | fuel + 1, reached, r =>
    let (reached, r) := r.runAll k k.patience 0 reached
    let (least, r) := r.thinOut k
    let beaten (t : Subtree) : Bool := (least.map fun c => decide (t.cost < c)).getD true
    let isDone := (r.best.map beaten).getD false
    if isDone || r.count = 0 then r else finish k fuel reached r

end Reader

/-- The best way of reading the whole source. -/
def Setting.script? (k : Setting) : Option Subtree := (Reader.fresh.finish k k.patience 0).best

end BundleReach.Script
