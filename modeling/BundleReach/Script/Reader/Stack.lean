import BundleReach.Script.Reader.Subtree

/-!
# The stack of a reader

A script is read in several ways at once.  Their stacks share what they have in common: the stack
is a graph, in which a node leads down to other nodes by the subtrees that were read on the way
up from them.

* `Stack` — the nodes, each known by its number.
* `Stack.addLink` — lets a node lead down in one more way.
* `Stack.trails` — the ways down from a node.
-/

namespace BundleReach.Script

/-- A step down from a node. -/
structure Link where
  below : Nat
  /-- What was read on the way up; `none` where the script stopped to make sense. -/
  subtree : Option Subtree
  deriving Inhabited

namespace Link

/-- The cost of what was read. -/
def cost (l : Link) : Nat := (l.subtree.map (·.cost)).getD 0

/-- The weight of what was read. -/
def weight (l : Link) : Int := (l.subtree.map (·.weight)).getD 0

/-- The number of syntax nodes that were read. -/
def size (l : Link) : Nat := (l.subtree.map (·.size)).getD 0

/-- Was the same read in two steps, or as good as the same? -/
def isAlike (a b : Link) : Bool :=
  match a.subtree, b.subtree with
  | none, none => true
  | some t, some u => t.isAlike u
  | _, _ => false

end Link

/-- A node of the stack: a state, with the place that has been reached and what is below. -/
structure StackNode where
  state : Nat
  links : List Link
  place : Nat
  cost : Nat
  weight : Int
  /-- The number of syntax nodes below. -/
  count : Nat
  deriving Inhabited

/-- Nodes by their numbers. -/
abbrev Stack := Array StackNode

namespace Stack

/-- The stack before anything is read, with its single node. -/
def bare : Stack := #[⟨1, [], 0, 0, 0, 0⟩]

/-- The node of a number. -/
def node (s : Stack) (n : Nat) : StackNode := s.getD n default

/-- Puts a subtree on top of a node, or nothing where the script stopped to make sense. -/
def push (s : Stack) (top : Nat) (t : Option Subtree) (state : Nat) : Nat × Stack :=
  let n := s.node top
  let link : Link := ⟨top, t⟩
  (s.size, Array.push s
    { state := state
      links := [link]
      place := (t.map (·.profile.stop)).getD n.place
      cost := n.cost + link.cost
      weight := n.weight + link.weight
      count := n.count + link.size })

/-! ## Sharing -/

/-- Can two nodes be made one? -/
def isAlike (s : Stack) (m n : Nat) : Bool :=
  let a := s.node m
  let b := s.node n
  a.state == b.state && a.place == b.place && a.cost == b.cost

/-- No node leads down in more ways. -/
def maxLinks : Nat := 8

/-- Lets a node lead down in one more way.  If there is such a way already, the nodes below are
made one; `fuel` bounds how deep this goes. -/
def addLink : Nat → Stack → Nat → Link → Stack
  | 0, s, _, _ => s
  | fuel + 1, s, self, link =>
    let here := s.node self
    let below := s.node link.below
    let weight := below.weight + link.weight
    if link.below = self then s
    else
      match here.links.findIdx? fun l =>
        l.isAlike link && (l.below == link.below || s.isAlike l.below link.below) with
      | some n =>
        let known := here.links.getD n default
        if known.below = link.below then
          if known.weight < link.weight then
            s.setIfInBounds self
              { here with
                links := here.links.set n link
                weight := weight }
          else s
        else
          let s := below.links.foldl (fun s l => addLink fuel s known.below l) s
          s.modify self fun here => { here with weight := max here.weight weight }
      | none =>
        if here.links.length = maxLinks then s
        else s.setIfInBounds self
          { here with
            links := here.links ++ [link]
            weight := max here.weight weight
            count := max here.count (below.count + link.size) }

/-- Lets a node lead down in all the ways in which another one does. -/
def mergeInto (s : Stack) (self other : Nat) : Stack :=
  (s.node other).links.foldl (fun s l => s.addLink (s.size + 1) self l) s

/-! ## Ways down -/

/-- A way down. -/
structure Trail where
  node : Nat
  /-- The subtrees on the way, the lowest first. -/
  subtrees : List Subtree
  /-- The number of steps; subtrees that may stand anywhere do not count. -/
  depth : Nat

/-- One step further down. -/
def Trail.along (t : Trail) (l : Link) : Trail :=
  match l.subtree with
  | none => ⟨l.below, t.subtrees, t.depth + 1⟩
  | some u => ⟨l.below, u :: t.subtrees, if u.isExtra then t.depth else t.depth + 1⟩

/-- The trails that go on below the nodes of one round. -/
structure Round where
  /-- Those that take the first link of a node. -/
  first : Array Trail
  /-- Those that branch off from them. -/
  branches : Array Trail
  /-- The number of all trails at this time. -/
  live : Nat

/-- No more trails are followed at once. -/
def maxTrails : Nat := 64

/-- Follows a trail further down, unless it stops. -/
def Round.follow (s : Stack) (stops : Trail → Bool) (r : Round) (t : Trail) : Round :=
  match (s.node t.node).links with
  | [] => { r with live := r.live - 1 }
  | l :: ls =>
    if stops t then { r with live := r.live - 1 }
    else
      let r := ls.foldl (fun (r : Round) l =>
        if maxTrails ≤ r.live then r
        else { r with branches := r.branches.push (t.along l), live := r.live + 1 }) r
      { r with first := r.first.push (t.along l) }

/-- All the trails that come up when some trails are followed down until they stop, those with the
fewest steps first; `fuel` bounds how far down they go. -/
def trailsFrom (s : Stack) (stops : Trail → Bool) : Nat → List Trail → List Trail
  | 0, _ => []
  | _, [] => []
  | fuel + 1, ts =>
    let r := ts.foldl (Round.follow s stops) ⟨#[], #[], ts.length⟩
    ts ++ trailsFrom s stops fuel (r.first ++ r.branches).toList

/-- All the trails that come up on the way down from a node. -/
def trails (s : Stack) (top : Nat) (stops : Trail → Bool) : List Trail :=
  s.trailsFrom stops (s.size + 1) [⟨top, [], 0⟩]

/-- The trails of a number of steps. -/
def trailsOf (s : Stack) (top depth : Nat) : List Trail :=
  (s.trails top (·.depth == depth)).filter (·.depth == depth)

/-- The trails down to the bottom. -/
def wholeTrails (s : Stack) (top : Nat) : List Trail :=
  (s.trails top fun _ => false).filter fun t => (s.node t.node).links.isEmpty

/-- Puts trails that lead to one node together. -/
def gather (ts : List Trail) : List (Nat × List Trail) :=
  (ts.map (·.node)).eraseDups.map fun n => (n, ts.filter (·.node == n))

end Stack

end BundleReach.Script
