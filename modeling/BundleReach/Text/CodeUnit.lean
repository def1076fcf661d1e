/-!
# Code units

A character beyond the first plane may be written as a pair of code units.  A unit of such a pair
without its partner stands for no character.  So that a text can hold it all the same, a private
character of the last plane stands in for it.

Main definitions: `loneUnit` and `loneUnit?`.
-/

namespace BundleReach.Text

def isHighUnit (n : Nat) : Bool := 0xD800 ≤ n && n ≤ 0xDBFF

def isLowUnit (n : Nat) : Bool := 0xDC00 ≤ n && n ≤ 0xDFFF

/-- The character that a pair of code units writes. -/
def pairedUnits (high low : Nat) : Char :=
  Char.ofNat (0x10000 + (high - 0xD800) * 1024 + (low - 0xDC00))

/-- What stands in for the first code unit of all that come in pairs. -/
def firstStandIn : Nat := 0x10F000

/-- What stands in for a code unit that lacks its partner. -/
def loneUnit (n : Nat) : Char := Char.ofNat (firstStandIn + (n - 0xD800))

/-- The code unit that a character stands in for. -/
def loneUnit? (c : Char) : Option Nat :=
  if firstStandIn ≤ c.toNat ∧ c.toNat < firstStandIn + 0x800 then
    some (0xD800 + (c.toNat - firstStandIn))
  else none

end BundleReach.Text
