import BundleReach.Script.Source
import BundleReach.Script.Automaton.Table

/-!
# Subtrees

What a stretch of a script has been read as.  A subtree keeps the blanks before its first token
apart, and it counts what is wrong in it: a script is read in the way that costs least.

* `Setting` — a table and the source that is read with it.
* `Subtree` — a token, a completed construct, or a stretch that fits nowhere.
* `Subtree.join` — puts subtrees together.
* `Subtree.isBetter` — which of two subtrees for one stretch is kept.
-/

namespace BundleReach.Script

/-- A table, and the source that is read with it. -/
structure Setting where
  table : Table
  source : Source

namespace Setting

/-- What is done in a state. -/
def row (k : Setting) (state : Nat) : Row := k.table.rows.getD state default

/-- Enough for every loop over the source: each of them comes to its end long before. -/
def patience (k : Setting) : Nat := 100 * (k.source.size + 100)

end Setting

/-! ## What faults cost -/

/-- The costs of faults. -/
structure Tariff where
  /-- A token that should stand somewhere and does not. -/
  missing : Nat
  /-- A place where the script stops to make sense. -/
  recovery : Nat
  /-- A node that fits nowhere. -/
  node : Nat
  /-- A line of text that fits nowhere, apart from its bytes, which cost 1 each. -/
  line : Nat
  /-- A reading is given up once it costs so much more than another one. -/
  tolerance : Nat

/-- What faults cost. -/
def tariff : Tariff := ⟨110, 500, 100, 30, 1800⟩

/-- What it costs to make nothing of the text between two places. -/
def Source.price (s : Source) (start stop : Nat) : Nat :=
  s.width start stop + tariff.line * s.height start stop

/-! ## Subtrees -/

/-- What a subtree stands for. -/
inductive Nature where
  | token (n : Nat)
  | construct (n : Nat)
  /-- What has been passed over so far where nothing fits. -/
  | debris
  /-- All that is wrong in one place. -/
  | mistake
  deriving DecidableEq, Inhabited

namespace Nature

/-- The order in which natures come: tokens, constructs, and what is wrong. -/
def rank : Nature → Nat × Nat
  | token n => (0, n)
  | construct n => (1, n)
  | debris => (2, 0)
  | mistake => (3, 0)

/-- Orders two natures. -/
def order (a b : Nature) : Ordering :=
  (compare a.rank.1 b.rank.1).then (compare a.rank.2 b.rank.2)

/-- The kind of the node that a token or a construct becomes, if it becomes one. -/
def kind? (g : Grammar) : Nature → Option Kind
  | token n => (g.tokens[n]?).bind Token.kind?
  | construct n =>
    match g.constructs[n]? with
    | some (.head h) => h.kind?
    | _ => none
  | debris | mistake => none

/-- Does a subtree of this nature become a node? -/
def isVisible (g : Grammar) (n : Nature) : Bool := n == mistake || (n.kind? g).isSome

/-- Is it something wrong? -/
def isFaulty : Nature → Bool
  | debris | mistake => true
  | token _ | construct _ => false

end Nature

/-- All that is known of a subtree apart from its parts. -/
structure Profile where
  nature : Nature
  /-- What is to be known of its parts. -/
  marks : List Mark
  /-- The place where the blanks before it begin. -/
  origin : Nat
  start : Nat
  stop : Nat
  /-- May it stand anywhere, like a comment? -/
  isExtra : Bool
  isMissing : Bool
  isVisible : Bool
  cost : Nat
  weight : Int
  /-- The number of nodes within it. -/
  within : Nat
  /-- The number of nodes directly within it, those of its invisible parts included. -/
  offspring : Nat
  deriving Inhabited

/-- What a stretch of a script has been read as. -/
inductive Subtree where
  | node (profile : Profile) (parts : List Subtree)
  deriving Inhabited

namespace Subtree

def profile : Subtree → Profile
  | node p _ => p

def parts : Subtree → List Subtree
  | node _ ts => ts

def nature (t : Subtree) : Nature := t.profile.nature

def isExtra (t : Subtree) : Bool := t.profile.isExtra

def cost (t : Subtree) : Nat := t.profile.cost

def weight (t : Subtree) : Int := t.profile.weight

/-- The number of nodes that it is, debris counting as one of its own. -/
def size (t : Subtree) : Nat :=
  t.profile.within + (if t.profile.isVisible then 1 else 0) +
    (if t.nature = .debris then 1 else 0)

/-- Has it no extent, not even blanks? -/
def isEmpty (t : Subtree) : Bool := t.profile.stop == t.profile.origin

/-- The same subtree, which may stand anywhere. -/
def asExtra : Subtree → Subtree
  | node p ts => node { p with isExtra := true } ts

/-- The same subtree, preferred or avoided by a weight. -/
def weighed (weight : Int) : Subtree → Subtree
  | node p ts => node { p with weight := p.weight + weight } ts

/-- The same stretch as another token. -/
def asToken (g : Grammar) (n : Nat) : Subtree → Subtree
  | node p ts => node { p with nature := .token n, isVisible := (Nature.token n).isVisible g } ts

/-- A token that the text between two places is, after blanks. -/
def leaf (g : Grammar) (n : Nature) (origin start stop : Nat) : Subtree :=
  node
    { nature := n
      marks := []
      origin := origin
      start := start
      stop := stop
      isExtra := n == .token (g.tokenNumber .endOfText)
      isMissing := false
      isVisible := n.isVisible g
      cost := 0
      weight := 0
      within := 0
      offspring := 0 } []

/-- A token that should stand at a place and does not. -/
def missing (g : Grammar) (n place : Nat) : Subtree :=
  match leaf g (.token n) place place place with
  | node p ts => node { p with isMissing := true, cost := tariff.missing + tariff.recovery } ts

/-! ## Putting subtrees together -/

/-- Each part, with whether it is a node of its own where its mark is taken into account. -/
def withMarks : List Mark → List Subtree → List (Subtree × Bool)
  | _, [] => []
  | marks, t :: ts =>
    if t.isExtra then (t, t.profile.isVisible) :: withMarks marks ts
    else
      (t, t.profile.isVisible || ((marks.head?).bind (·.1)).isSome) :: withMarks marks.tail ts

/-- What it costs that a part has no better place than among what is wrong. -/
def lossOf (t : Subtree) : Nat :=
  if t.isExtra || (t.nature == .mistake && t.parts.isEmpty) then 0
  else if t.profile.isVisible then tariff.node
  else tariff.node * t.profile.offspring

/-- The subtree that some parts make; without parts, it stands at the given place. -/
def join (k : Setting) (n : Nature) (marks : List Mark) (place : Nat) (parts : List Subtree) :
    Subtree :=
  let start := (parts.head?.map (·.profile.start)).getD place
  let stop := (parts.getLast?.map (·.profile.stop)).getD place
  let own := parts.foldl (fun c t => if t.nature = .debris then c else c + t.cost) 0
  let loss := if n.isFaulty then
      parts.foldl (fun c t => c + t.lossOf) (tariff.recovery + k.source.price start stop)
    else 0
  let marked := withMarks marks parts
  node
    { nature := n
      marks := marks
      origin := (parts.head?.map (·.profile.origin)).getD place
      start := start
      stop := stop
      isExtra := false
      isMissing := false
      isVisible := n.isVisible k.table.grammar
      cost := own + loss
      weight := parts.foldl (fun w t => w + t.weight) 0
      within := marked.foldl (fun c (t, shown) => c + t.profile.within + shown.toNat) 0
      offspring := marked.foldl (fun c (t, shown) =>
        c + if shown then 1 else t.profile.offspring) 0 } parts

/-- The parts before the last ones that may stand anywhere, and these. -/
def splitExtras (ts : List Subtree) : List Subtree × List Subtree :=
  let extras := (ts.reverse.takeWhile isExtra).reverse
  (ts.take (ts.length - extras.length), extras)

/-! ## Choosing between subtrees -/

/-- Are two subtrees for one stretch as good as the same?  Of two that are wrong, either will
do. -/
def isAlike (a b : Subtree) : Bool :=
  a.nature == b.nature &&
    ((0 < a.cost && 0 < b.cost) ||
      (a.profile.origin == b.profile.origin && a.profile.start == b.profile.start &&
        a.profile.stop == b.profile.stop && a.parts.length == b.parts.length &&
        a.isExtra == b.isExtra))

mutual

/-- Orders two subtrees by their natures and by their numbers of parts, and where these agree by
their parts. -/
def order : Subtree → Subtree → Ordering
  | node p ts, node q us =>
    ((p.nature.order q.nature).then (compare ts.length us.length)).then (orderAll ts us)

/-- Orders two lists of subtrees by the first pair that differs. -/
def orderAll : List Subtree → List Subtree → Ordering
  | t :: ts, u :: us => (t.order u).then (orderAll ts us)
  | _, _ => .eq

end

/-- Is the second subtree kept rather than the first one?  The cheaper one is, then the one of
greater weight, and then the one that comes first in order. -/
def isBetter (a b : Subtree) : Bool :=
  if b.cost < a.cost then true
  else if a.cost < b.cost then false
  else if a.weight < b.weight then true
  else if b.weight < a.weight then false
  else if 0 < a.cost then true
  else a.order b == .gt

end Subtree

end BundleReach.Script
