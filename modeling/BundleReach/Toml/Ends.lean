import BundleReach.Text.Blank

/-!
# The ends of characters

What stands at either end of the characters of a value: blanks around it, quotes and brackets, and
backslashes before what comes next.

Main definitions: `strip`, `trim` and `endsEscaped`.
-/

namespace BundleReach.Toml

def isBlankChar (c : Char) : Bool :=
  Text.isWhiteSpace c || (0x1C ≤ c.toNat && c.toNat ≤ 0x1F)

/-- Characters without the blanks around them. -/
def strip (cs : List Char) : List Char :=
  ((cs.dropWhile isBlankChar).reverse.dropWhile isBlankChar).reverse

/-- Characters without so many at either end. -/
def trim (n : Nat) (cs : List Char) : List Char := (cs.drop n).take (cs.length - 2 * n)

/-- Whether an odd number of backslashes ends the characters. -/
def endsEscaped (cs : List Char) : Bool := (cs.reverse.takeWhile (· == '\\')).length % 2 == 1

end BundleReach.Toml
