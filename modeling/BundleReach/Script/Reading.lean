import BundleReach.Script.Reader.Course

/-!
# Reading scripts

The best way of reading a script is taken as it is, mistakes included: if there are any, the first
one in reading order is told, and otherwise the subtrees become a syntax tree.

* `Setting.nodesOf` — the nodes of the syntax tree that a subtree becomes.
* `readScript` — the syntax tree of a script, or the line of its first mistake.
-/

namespace BundleReach.Script

namespace Setting

mutual

/-- The nodes that a subtree becomes, given the mark that it has in its parent: one, if it has a
kind, or else those of its parts.  All of them play the role that the subtree plays. -/
def nodesOf (k : Setting) (mark : Mark) : Subtree → List Tree
  | .node p parts =>
    let children := nodesAmong k p.marks parts
    match mark.1.or (p.nature.kind? k.table.grammar) with
    | some kind =>
      let label : Label :=
        ⟨kind, mark.2, k.source.slice p.start p.stop, k.source.lineAt p.start⟩
      [.node label children]
    | none =>
      match mark.2 with
      | some role => children.map fun t => if t.role.isNone then t.playing role else t
      | none => children

/-- The nodes that some parts become.  Parts that may stand anywhere have no mark. -/
def nodesAmong (k : Setting) (marks : List Mark) : List Subtree → List Tree
  | [] => []
  | t :: ts =>
    if t.isExtra then nodesOf k (none, none) t ++ nodesAmong k marks ts
    else nodesOf k (marks.headD (none, none)) t ++ nodesAmong k marks.tail ts

end

/-- The syntax tree that a subtree becomes. -/
def tree? (k : Setting) (t : Subtree) : Option Tree := (k.nodesOf (none, none) t).head?

end Setting

namespace Subtree

mutual

/-- The place of the first mistake or missing token in a subtree. -/
def firstFault? : Subtree → Option Nat
  | node p parts =>
    if p.nature == .mistake || (p.isMissing && p.isVisible) then some p.start
    else firstFaultAmong? parts

/-- The place of the first mistake or missing token in some subtrees. -/
def firstFaultAmong? : List Subtree → Option Nat
  | [] => none
  | t :: ts =>
    match firstFault? t with
    | some place => some place
    | none => firstFaultAmong? ts

end

end Subtree

/-! ## Scripts -/

/-- The table for plain scripts. -/
def plainTable : Table := .ofDialect .plain

/-- The table for typed scripts. -/
def typedTable : Table := .ofDialect .typed

/-- The table of a dialect. -/
def tableOf : Dialect → Table
  | .plain => plainTable
  | .typed => typedTable

/-- Reads the script that some bytes hold, or tells the line of its first mistake. -/
def readScript : Parser := fun d bytes =>
  let k : Setting := ⟨tableOf d, .ofBytes bytes⟩
  match k.script? with
  | none => .error 1
  | some t =>
    if 0 < t.cost then .error (k.source.lineAt ((t.firstFault?).getD 0))
    else
      match k.tree? t with
      | some tree => .ok tree
      | none => .error 1

end BundleReach.Script
