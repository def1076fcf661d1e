import Std.Data.HashMap

/-!
# Numbering things

Things are numbered in the order in which they are met, each once.

Main definitions: `Pool.number`, and `distinct` for a list without repetition.
-/

namespace BundleReach.Script

/-- Numbered things without repetition. -/
structure Pool (α : Type) [BEq α] [Hashable α] where
  all : Array α := #[]
  known : Std.HashMap α Nat := ∅

namespace Pool

variable {α : Type} [BEq α] [Hashable α]

/-- The number of a thing, new or known. -/
def number (p : Pool α) (a : α) : Nat × Pool α :=
  match p.known[a]? with
  | some n => (n, p)
  | none => (p.all.size, ⟨p.all.push a, p.known.insert a p.all.size⟩)

end Pool

/-- The list with each thing where it stands first only. -/
def distinct {α : Type} [BEq α] [Hashable α] (as : List α) : List α :=
  (as.foldl (fun p a => (p.number a).2) ({} : Pool α)).all.toList

end BundleReach.Script
