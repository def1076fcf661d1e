import BundleReach.Script.Automaton.Item

/-!
# Cores

A core is a set of items that are in progress at once.  What may follow an item depends on where
the core stands; but how that depends on what may follow the items of the core is the same wherever
it stands, so the items that a core entails are computed once.

* `Outlook` — what may follow an item: some tokens, and all that may follow some items of the core.
* `Core.ofKernel` — the productions that a core completes and the moves that it allows.
-/

namespace BundleReach.Script

/-- What may follow an item of a core. -/
structure Outlook where
  tokens : TokenSet
  /-- The places, within the core, of the items whose followers are followers of this one too. -/
  inherited : TokenSet
  deriving DecidableEq, Hashable, Inhabited

namespace Outlook

def none : Outlook := ⟨.empty, .empty⟩

def union (a b : Outlook) : Outlook := ⟨a.tokens.union b.tokens, a.inherited.union b.inherited⟩

end Outlook

/-- An item together with what may follow it. -/
structure Prospect where
  item : Nat
  outlook : Outlook
  deriving Inhabited

/-- An item together with the number of what may follow it, among the outlooks of a core. -/
structure Target where
  item : Nat
  outlook : Nat

/-- A symbol that may come next, with the items that it leads to. -/
structure Move where
  symbol : Nat
  targets : Array Target

/-- A set of items in progress, and what it entails. -/
structure Core where
  /-- The items, in order. -/
  kernel : Array Nat
  /-- All that may follow an item. -/
  outlooks : Array Outlook
  /-- The items that have nothing to come. -/
  completed : Array Target
  /-- The symbols that may come next, in order. -/
  moves : Array Move
  /-- May a name come next? -/
  name : Bool
  /-- May a name come next that is spelled like a reserved word? -/
  unreservedName : Bool

namespace Core

/-- What the constructs that begin a given item's next symbol are followed by, where the item
stands at the given place of the kernel. -/
def lead (t : Items) (outlooks : Array Outlook) (place item : Nat) : Array Outlook :=
  match t.next.getD item none with
  | none => outlooks
  | some symbol =>
    if t.isToken symbol then outlooks
    else
      let after : Outlook := match t.next.getD (t.after.getD item 0) none with
        | none => ⟨.empty, .single place⟩
        | some s => ⟨t.first.getD s .empty, .empty⟩
      (t.leads.getD (symbol - t.grammar.tokens.size) []).foldl (fun os (c, tokens, isLast) =>
        let own : Outlook := ⟨tokens, .empty⟩
        os.modify c (·.union (if isLast then own.union after else own))) outlooks

/-- All the items that are in progress, those of the kernel first. -/
def prospects (t : Items) (kernel : Array Nat) : List Prospect :=
  let places := kernel.toList.zipIdx
  let outlooks := places.foldl (fun os (item, place) => lead t os place item)
    (Array.replicate t.grammar.constructs.size Outlook.none)
  let entailed := outlooks.toList.zipIdx.flatMap fun (o, c) =>
    if o.tokens == 0 && o.inherited == 0 then []
    else (t.starts.getD c []).map fun item => ⟨item, o⟩
  places.map (fun (item, place) => ⟨item, ⟨.empty, .single place⟩⟩) ++ entailed

/-- Joins items that stand next to each other and are the same. -/
def joined : List Prospect → List Prospect
  | [] => []
  | p :: ps =>
    match joined ps with
    | [] => [p]
    | q :: qs =>
      if p.item = q.item then ⟨p.item, p.outlook.union q.outlook⟩ :: qs else p :: q :: qs

/-- Sorts items and joins those that are the same. -/
def gathered (ps : List Prospect) : List Prospect :=
  joined (ps.mergeSort fun a b => a.item ≤ b.item)

/-- Collects the items that follow each symbol, from a list in the order of the symbols. -/
def movesOf : List (Nat × Prospect) → List (Nat × List Prospect)
  | [] => []
  | (symbol, p) :: rest =>
    match movesOf rest with
    | [] => [(symbol, [p])]
    | (other, ps) :: moves =>
      if symbol = other then (symbol, p :: ps) :: moves
      else (symbol, [p]) :: (other, ps) :: moves

/-- Items with the numbers of their outlooks, new or known. -/
def targetsOf (known : Pool Outlook) (ps : List Prospect) : Array Target × Pool Outlook :=
  ps.foldl (fun (ts, known) p =>
    let (n, known) := known.number p.outlook
    (ts.push ⟨p.item, n⟩, known)) (#[], known)

/-- The core of the given items. -/
def ofKernel (t : Items) (kernel : Array Nat) : Core :=
  let all := prospects t kernel
  let steps := all.filterMap fun p =>
    (t.next.getD p.item none).map fun symbol =>
      (symbol, (⟨t.after.getD p.item 0, p.outlook⟩ : Prospect))
  let moves := movesOf (steps.mergeSort fun a b => a.1 ≤ b.1)
  let name := t.grammar.tokenNumber .identifier
  let (completed, known) := targetsOf {}
    (gathered (all.filter fun p => (t.next.getD p.item none).isNone))
  let (numbered, known) := moves.foldl (fun (ms, known) (symbol, ps) =>
    let (targets, known) := targetsOf known (gathered ps)
    (Array.push ms (⟨symbol, targets⟩ : Move), known)) (#[], known)
  { kernel := kernel
    outlooks := known.all
    completed := completed
    moves := numbered
    name := moves.any (·.1 == name)
    unreservedName := all.any fun p =>
      match (t.all[p.item]?).bind (·.rest.head?) with
      | some s => s.unreserved && s.symbol == .token .identifier
      | none => false }

end Core

end BundleReach.Script
