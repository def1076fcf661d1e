import BundleReach.Graph.Basic

/-!
# Closures

The closure of some entries holds every module that is loaded together with them: what they import,
statically or by offering it on, and what that imports in turn.  Dynamic imports end it.

Main definitions: `closure`, and `Reaches`, the relation it computes.
-/

namespace BundleReach

/-- The kinds of links whose two ends are loaded together. -/
def followedKinds : List LinkKind := [.static, .reexport]

/-- A list without its repetitions, the last of equal items staying. -/
def keepLast {α : Type} [DecidableEq α] : List α → List α
  | [] => []
  | a :: rest => if a ∈ rest then keepLast rest else a :: keepLast rest

/-- The modules that a module is loaded with and that have not been seen, in the order in which a
walk takes them up: by their last import. -/
def freshSuccessors (g : ModuleGraph) (seen : List Path) (p : Path) : List Path :=
  keepLast ((g.successors followedKinds p).filter (· ∉ seen))

/-- Takes up modules from a stack, putting what they are loaded with on top of it.  Yields the
modules taken up and all that have been seen. -/
def takeUp (g : ModuleGraph) : Nat → List Path → List Path → List Path × List Path
  | 0, _, seen => ([], seen)
  | _, [], seen => ([], seen)
  | fuel + 1, p :: stack, seen =>
    let fresh := freshSuccessors g seen p
    let (order, seen) := takeUp g fuel (fresh ++ stack) (seen ++ fresh)
    (p :: order, seen)

/-- The ends of the edges that leave modules. -/
def targets (g : ModuleGraph) : List Path :=
  g.out.flatMap fun e => e.2.filterMap ImportEdge.target

/-- The closure of entries, after what has been seen before them.  Every module but the entry is
the end of an edge. -/
def closureAfter (g : ModuleGraph) : List Path → List Path → List Path
  | [], _ => []
  | entry :: rest, seen =>
    if entry ∈ seen then closureAfter g rest seen
    else
      let (order, seen) := takeUp g ((targets g).length + 1) [entry] (seen ++ [entry])
      order ++ closureAfter g rest seen

/-- The modules that are loaded together with some entries, in the order of loading. -/
def closure (g : ModuleGraph) (entries : List Path) : List Path := closureAfter g entries []

/-- A module is loaded together with another one: it is that one, or some module that is loaded
with it imports it other than dynamically. -/
inductive Reaches (g : ModuleGraph) (entries : List Path) : Path → Prop where
  | entry {p : Path} : p ∈ entries → Reaches g entries p
  | step {p q : Path} : Reaches g entries p → q ∈ g.successors followedKinds p →
      Reaches g entries q

end BundleReach
