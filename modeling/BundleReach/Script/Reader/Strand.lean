import BundleReach.Script.Reader.Stack

/-!
# Strands

A strand is one of the ways of reading a script that are followed at once.  Strands that come to
the same state at the same place, at the same cost, are made one; and a strand is given up when
another one is clearly better.

* `Strand`, `Reader` — the strands, and all that there is of them.
* `Reader.merge` — makes two strands one.
* `Status.compare` — which of two strands is better.
-/

namespace BundleReach.Script

/-- A state that a strand has been in before the script stopped to make sense. -/
structure Waypoint where
  place : Nat
  /-- The number of steps down to it. -/
  depth : Nat
  state : Nat

/-- Whether a strand goes on. -/
inductive Condition where
  | active
  /-- The next token fits nowhere. -/
  | paused (lookahead : Subtree)
  | halted
  deriving Inhabited

/-- One of the ways of reading a script. -/
structure Strand where
  /-- The number of its topmost node. -/
  top : Nat
  /-- The number of syntax nodes at the time when the script last stopped to make sense. -/
  countAtFault : Nat
  condition : Condition
  /-- The states to go back to, where the script has stopped to make sense. -/
  waypoints : List Waypoint
  deriving Inhabited

namespace Strand

def isActive (s : Strand) : Bool :=
  match s.condition with
  | .active => true
  | _ => false

def isHalted (s : Strand) : Bool :=
  match s.condition with
  | .halted => true
  | _ => false

def isPaused (s : Strand) : Bool :=
  match s.condition with
  | .paused _ => true
  | _ => false

end Strand

/-- All the ways of reading a script that are followed. -/
structure Reader where
  stack : Stack
  strands : Array Strand
  /-- The best way of reading the whole script so far. -/
  best : Option Subtree
  /-- The number of ways of reading the whole script so far. -/
  accepted : Nat

namespace Reader

/-- Nothing has been read. -/
def fresh : Reader := ⟨.bare, #[⟨0, 0, .active, []⟩], none, 0⟩

/-- The number of strands. -/
def count (r : Reader) : Nat := r.strands.size

def strand (r : Reader) (v : Nat) : Strand := r.strands.getD v default

/-- The topmost node of a strand. -/
def node (r : Reader) (v : Nat) : StackNode := r.stack.node (r.strand v).top

/-- The state that a strand is in. -/
def state (r : Reader) (v : Nat) : Nat := (r.node v).state

/-- The place that a strand has reached. -/
def place (r : Reader) (v : Nat) : Nat := (r.node v).place

/-- Changes a strand. -/
def adjust (r : Reader) (v : Nat) (f : Strand → Strand) : Reader :=
  { r with strands := r.strands.modify v f }

/-- Gives up a strand. -/
def halt (r : Reader) (v : Nat) : Reader := r.adjust v fun s => { s with condition := .halted }

/-- Forgets a strand. -/
def remove (r : Reader) (v : Nat) : Reader :=
  { r with strands := r.strands.eraseIdxIfInBounds v }

/-- Adds a strand that branches off from another one, with a topmost node of its own. -/
def branch (r : Reader) (v top : Nat) : Reader :=
  { r with strands := r.strands.push ⟨top, (r.strand v).countAtFault, .active, []⟩ }

/-- Puts a subtree on top of a strand. -/
def push (r : Reader) (v : Nat) (t : Subtree) (state : Nat) : Reader :=
  let (top, stack) := r.stack.push (r.strand v).top (some t) state
  { r with stack := stack, strands := r.strands.modify v fun s => { s with top := top } }

/-- Puts several subtrees on top of a strand, without a change of state. -/
def pushAll (r : Reader) (v : Nat) (ts : List Subtree) (state : Nat) : Reader :=
  ts.foldl (fun r t => r.push v t state) r

/-- Notes that a strand has stopped to make sense. -/
def breakOff (r : Reader) (v : Nat) : Reader :=
  let count := (r.node v).count
  let (top, stack) := r.stack.push (r.strand v).top none 0
  { r with
    stack := stack
    strands := r.strands.modify v fun s => { s with top := top, countAtFault := count } }

/-- Puts a strand in the place of an earlier one. -/
def replace (r : Reader) (v w : Nat) : Reader :=
  if v = w then r
  else
    let new := r.strand w
    let waypoints := if new.waypoints.isEmpty then (r.strand v).waypoints else new.waypoints
    let r := r.adjust v fun _ => { new with waypoints := waypoints }
    r.remove w

/-! ## Merging -/

/-- Can two strands be made one? -/
def canMerge (r : Reader) (v w : Nat) : Bool :=
  (r.strand v).isActive && (r.strand w).isActive &&
    r.stack.isAlike (r.strand v).top (r.strand w).top

/-- Makes a later strand part of an earlier one, if they can be made one. -/
def merge? (r : Reader) (v w : Nat) : Option Reader :=
  if r.canMerge v w then
    let stack := r.stack.mergeInto (r.strand v).top (r.strand w).top
    let r := { r with stack := stack }
    let n := r.node v
    let r := if n.state = 0 then r.adjust v fun s => { s with countAtFault := n.count } else r
    some (r.remove w)
  else none

/-- Makes a strand part of the first of some earlier ones that it can be made one with. -/
def mergeInto? (r : Reader) (w : Nat) : List Nat → Option Reader
  | [] => none
  | v :: vs =>
    match r.merge? v w with
    | some r => some r
    | none => r.mergeInto? w vs

/-! ## Comparing -/

/-- What a strand costs. -/
def cost (r : Reader) (v : Nat) : Nat :=
  let n := r.node v
  let isBroken := n.state == 0 && ((n.links.head?).map (·.subtree.isNone)).getD false
  n.cost + if (r.strand v).isPaused || isBroken then tariff.recovery else 0

/-- The number of syntax nodes read since a strand last stopped to make sense.  When there are
fewer nodes than there were then, counting begins anew. -/
def recent (r : Reader) (v : Nat) : Nat × Reader :=
  let count := (r.node v).count
  let r := if count < (r.strand v).countAtFault then
      r.adjust v fun s => { s with countAtFault := count }
    else r
  (count - (r.strand v).countAtFault, r)

/-- Has anything been read below a node since the strand last stopped to make sense?  `fuel` bounds
the number of nodes looked at. -/
def hasAdvancedBelow (r : Reader) (countAtFault : Nat) : Nat → Nat → Bool
  | 0, _ => false
  | fuel + 1, top =>
    let n := r.stack.node top
    match n.links with
    | [] => false
    | l :: _ =>
      match l.subtree with
      | none => false
      | some t =>
        if !t.isEmpty then true
        else if countAtFault < n.count && t.cost == 0 then
          r.hasAdvancedBelow countAtFault fuel l.below
        else false

/-- Has anything been read since the strand last stopped to make sense? -/
def hasAdvanced (r : Reader) (v : Nat) : Bool :=
  let s := r.strand v
  (r.node v).cost == 0 || r.hasAdvancedBelow s.countAtFault (r.stack.size + 1) s.top

end Reader

/-- What strands are compared by. -/
structure Status where
  cost : Nat
  /-- The number of syntax nodes read since the strand last stopped to make sense. -/
  recent : Nat
  weight : Int
  /-- Does the strand make no sense at present? -/
  isLost : Bool

/-- Which of two strands is better, and whether it is so clearly. -/
inductive Preference where
  | takeFirst
  | preferFirst
  | neither
  | preferSecond
  | takeSecond
  deriving DecidableEq

namespace Status

/-- Is the difference in cost so great that the cheaper strand, which has the given number of
nodes, is the better one for sure? -/
def isClear (difference recent : Nat) : Bool := tariff.tolerance < difference * (1 + recent)

/-- Which of two strands is better. -/
def compare (a b : Status) : Preference :=
  if !a.isLost && b.isLost then if a.cost < b.cost then .takeFirst else .preferFirst
  else if a.isLost && !b.isLost then if b.cost < a.cost then .takeSecond else .preferSecond
  else if a.cost < b.cost then
    if isClear (b.cost - a.cost) a.recent then .takeFirst else .preferFirst
  else if b.cost < a.cost then
    if isClear (a.cost - b.cost) b.recent then .takeSecond else .preferSecond
  else if b.weight < a.weight then .preferFirst
  else if a.weight < b.weight then .preferSecond
  else .neither

end Status

namespace Reader

/-- The status of a strand. -/
def status (r : Reader) (v : Nat) : Status × Reader :=
  let (recent, r) := r.recent v
  let isPaused := (r.strand v).isPaused
  ({ cost := r.cost v + if isPaused then tariff.node else 0
     recent := recent
     weight := (r.node v).weight
     isLost := isPaused || r.state v == 0 }, r)

/-- Is one of the given strands better than a strand would be at the given cost? -/
def isBeatenBy (v : Nat) (own : Status) : List Nat → Reader → Bool × Reader
  | [], r => (false, r)
  | w :: ws, r =>
    if w = v || !(r.strand w).isActive || r.place w < r.place v then isBeatenBy v own ws r
    else
      let (other, r) := r.status w
      match own.compare other with
      | .takeSecond => (true, r)
      | .preferSecond => if r.canMerge w v then (true, r) else isBeatenBy v own ws r
      | _ => isBeatenBy v own ws r

/-- Is there a way of reading that is better than a strand would be at the given cost? -/
def isBeaten (r : Reader) (v cost : Nat) : Bool × Reader :=
  if (r.best.map fun t => decide (t.cost ≤ cost)).getD false then (true, r)
  else
    let (recent, r) := r.recent v
    isBeatenBy v ⟨cost, recent, (r.node v).weight, false⟩ (List.range r.count) r

end Reader

end BundleReach.Script
