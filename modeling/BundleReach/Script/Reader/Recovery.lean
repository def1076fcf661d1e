import BundleReach.Script.Reader.Completion

/-!
# Recovery

Where a script stops to make sense, the reader goes on in three ways and leaves it to the costs
which of them is best: a missing token is put in, or some subtrees are taken for a mistake such
that the next token can follow what is below them, or the next token is passed over.

* `Reader.goBack` — takes subtrees for a mistake.
* `Reader.recover` — goes on where a script does not make sense.
* `Reader.breakDown` — where a script stops to make sense.
-/

namespace BundleReach.Script

namespace Reader

/-! ## Taking subtrees for a mistake -/

/-- Takes a mistake off the top of a strand, if there is one, and gives its parts. -/
def takeMistake (r : Reader) (v : Nat) : List Subtree × Reader :=
  let mistake := (r.node v).links.findSome? fun l =>
    match l.subtree with
    | some t => if t.nature = .mistake then some (l.below, t.parts) else none
    | none => none
  match mistake with
  | none => ([], r)
  | some (below, parts) => (parts, r.adjust v fun s => { s with top := below })

/-- Adds a strand that goes on from a node in the given state, all that is above it on a trail
being a mistake. -/
def goBackAbove (k : Setting) (v state : Nat) (r : Reader) (node : Nat)
    (trails : List Stack.Trail) : Reader :=
  match trails with
  | [] => r
  | t :: _ =>
    if (r.stack.node node).state ≠ state then r
    else
      let w := r.count
      let (parts, r) := (r.branch v node).takeMistake w
      let (parts, extras) := Subtree.splitExtras (parts ++ t.subtrees)
      let r := if parts.isEmpty then r
        else r.push w (Subtree.join k .mistake [] (r.place w) parts).asExtra state
      r.pushAll w extras state

/-- Adds strands that go on in a state which a strand has been in that many steps ago. -/
def goBack (k : Setting) (v depth state : Nat) (r : Reader) : Reader :=
  (Stack.gather (r.stack.trailsOf (r.strand v).top depth)).foldl
    (fun r (node, trails) => r.goBackAbove k v state node trails) r

/-- Goes back to the first waypoint that the next token can follow, unless other strands are
better or as good. -/
def goBackToAny (k : Setting) (look : Subtree) (v recent cost before : Nat) :
    List Waypoint → Reader → Reader
  | [], r => r
  | w :: ws, r =>
    let place := r.place v
    let isTaken := (List.range before).any fun u => r.state u == w.state && r.place u == place
    if w.state = 0 || w.place = place || isTaken then goBackToAny k look v recent cost before ws r
    else
      let (beaten, r) := r.isBeaten v
        (cost + tariff.node * w.depth + k.source.price w.place place)
      if beaten then r
      else if (k.cellOf w.state look).isEmpty then goBackToAny k look v recent cost before ws r
      else
        let next := r.goBack k v (if 0 < recent then w.depth + 1 else w.depth) w.state
        if r.count < next.count then next
        else goBackToAny k look v recent cost before ws next

/-! ## Going on -/

/-- Passes over the next token. -/
def passOver (k : Setting) (look : Subtree) (v recent : Nat) (r : Reader) : Reader :=
  let look := if (k.cellOf 1 look).shift = .skipped then look.asExtra else look
  let place := r.place v
  let debris := Subtree.join k .debris [] place [look]
  if recent = 0 then r.push v debris 0
  else
    match r.stack.trailsOf (r.strand v).top 1 with
    | [] => r.push v debris 0
    | t :: _ =>
      let r := r.adjust v fun s => { s with top := t.node, condition := .active }
      r.push v (.join k .debris [] place (t.subtrees ++ [debris])) 0

/-- Goes on with a strand that does not make sense. -/
def recover (k : Setting) (look : Subtree) (v : Nat) (r : Reader) : Reader :=
  let before := r.count
  let (recent, r) := r.recent v
  let cost := r.cost v
  let r := if look.nature = .mistake then r
    else r.goBackToAny k look v recent cost before (r.strand v).waypoints
  let atEnd := look.nature = .token (k.table.grammar.tokenNumber .endOfText)
  if atEnd then
    (r.push v (.join k .mistake [] (r.place v) []) 1).accept k look v
  else if before < r.count && maxStrands < r.count then r.halt v
  else
    let p := look.profile
    let (beaten, r) := r.isBeaten v (cost + tariff.node + k.source.price p.origin p.stop)
    if beaten then r.halt v else r.passOver k look v recent

/-! ## Where a script stops to make sense -/

/-- Can a token be put in such that something can be completed before the next one? -/
def helps (k : Setting) (look : Subtree) (state token : Nat) : Bool :=
  match ((k.row state).cell token).shift with
  | .taken n | .repeated n =>
    n != 0 && n != state &&
      match (k.cellOf n look).reductions with
      | [] => false
      | x :: _ => !k.isFinal (k.reduction x)
  | _ => false

/-- Adds a strand with the first of some tokens put in that leads to the next token, and tells
whether there is one. -/
def supply (k : Setting) (look : Subtree) (v : Nat) : List Nat → Reader → Bool × Reader
  | [], r => (false, r)
  | token :: tokens, r =>
    let state := r.state v
    if helps k look state token then
      let w := r.count
      let next := ((k.row state).cell token).shift.state?.getD 0
      let r := (r.branch v (r.strand v).top).push w
        (.missing k.table.grammar token (r.place v)) next
      let number? := match look.nature with
        | .token n => if n = k.table.grammar.tokenNumber .endOfText then none else some n
        | _ => none
      let (found, r) := r.completeAll k w number?
      if found then (true, r) else supply k look v tokens r
    else supply k look v tokens r

/-- Puts in a missing token on the first strand where one helps, and notes on every strand that it
has stopped to make sense. -/
def supplyAndBreakOff (k : Setting) (look : Subtree) : List Nat → Bool → Reader → Reader
  | [], _, r => r
  | v :: vs, supplied, r =>
    let tokens := (List.range k.table.grammar.tokens.size).drop 1
    let (found, r) := if supplied then (false, r) else r.supply k look v tokens
    supplyAndBreakOff k look vs (supplied || found) (r.breakOff v)

/-- Makes strands part of an earlier one, `n` times the strand at the same place. -/
def mergeRun (v w : Nat) : Nat → Reader → Reader
  | 0, r => r
  | n + 1, r => mergeRun v w n ((r.merge? v w).getD r)

/-- No waypoint is further down. -/
def maxDepth : Nat := 16

/-- The states below the top of a strand, with the number of steps down to each. -/
def waypointsOf (r : Reader) (v : Nat) : List Waypoint :=
  let trails := (r.stack.trails (r.strand v).top fun t => maxDepth < t.depth).filter
    (·.depth ≤ maxDepth)
  let latestFirst := trails.foldl (fun (ws : List Waypoint) t =>
    let n := r.stack.node t.node
    let isKnown := (ws.takeWhile (t.depth ≤ ·.depth)).any fun w =>
      w.depth == t.depth && w.state == n.state
    if isKnown then ws else ⟨n.place, t.depth, n.state⟩ :: ws) []
  latestFirst.reverse

/-- Goes on with a strand where the next token fits nowhere. -/
def breakDown (k : Setting) (look : Subtree) (v : Nat) (r : Reader) : Reader :=
  let before := r.count
  let (_, r) := r.completeAll k v none
  let added := r.count - before
  let all := v :: (List.range r.count).drop before
  let r := r.supplyAndBreakOff k look all false
  let r := mergeRun v before added r
  let waypoints := r.waypointsOf v
  (r.adjust v fun s => { s with waypoints := waypoints }).recover k look v

end Reader

end BundleReach.Script
