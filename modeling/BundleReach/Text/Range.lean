/-!
# Ranges of characters

A set of characters is written as the ranges of code points that it consists of.

Main definition: `inRanges`.
-/

namespace BundleReach.Text

/-- Ranges of code points, each with its first and its last one. -/
abbrev Ranges := List (Nat × Nat)

/-- Is the character in one of the ranges? -/
def inRanges (rs : Ranges) (c : Char) : Bool :=
  rs.any fun r => r.1 ≤ c.toNat && c.toNat ≤ r.2

end BundleReach.Text
