/-!
# Blank characters

Two sets of blank characters are in use: those that Unicode calls white space, and the smaller set
of those at which a line may be broken.  The first decides where tokens of a script may be
separated, the second where a missing semicolon may be supplied.
-/

namespace BundleReach.Text

/-- White space in the sense of Unicode's `White_Space` property. -/
def isWhiteSpace (c : Char) : Bool :=
  let n := c.toNat
  (9 ≤ n && n ≤ 13) || n == 0x20 || n == 0x85 || n == 0xA0 || n == 0x1680 ||
    (0x2000 ≤ n && n ≤ 0x200A) || n == 0x2028 || n == 0x2029 || n == 0x202F || n == 0x205F ||
    n == 0x3000

/-- Space for layout purposes: white space that may break a line, so without the non-breaking
spaces, and without the next-line control. -/
def isLayoutSpace (c : Char) : Bool :=
  isWhiteSpace c && !(c.toNat == 0x85 || c.toNat == 0xA0 || c.toNat == 0x2007 || c.toNat == 0x202F)

/-- The three marks that end a line of a script. -/
def isLineEnd (c : Char) : Bool := c == '\n' || c.toNat == 0x2028 || c.toNat == 0x2029

end BundleReach.Text
