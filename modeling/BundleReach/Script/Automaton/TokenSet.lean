/-!
# Sets of numbered tokens

A set of small numbers is kept as a single number: its binary digits tell what is in the set.  The
union of two sets is the bitwise disjunction of the numbers.

Main definitions: `TokenSet`, `TokenSet.has` and `TokenSet.toList`.
-/

namespace BundleReach.Script

/-- A set of numbers. -/
abbrev TokenSet := Nat

namespace TokenSet

def empty : TokenSet := 0

/-- Is a number in the set? -/
def has (s : TokenSet) (n : Nat) : Bool := s.testBit n

/-- The set of one number. -/
def single (n : Nat) : TokenSet := 1 <<< n

def union (a b : TokenSet) : TokenSet := a ||| b

def inter (a b : TokenSet) : TokenSet := a &&& b

/-- What is in the first set and not in the second one. -/
def without (a b : TokenSet) : TokenSet := a ^^^ (a &&& b)

def insert (s : TokenSet) (n : Nat) : TokenSet := s.union (single n)

/-- Have two sets no member in common? -/
def disjoint (a b : TokenSet) : Bool := a.inter b == 0

/-- The members below a power of two, given by its exponent, each moved up by an offset.  The set
is halved as long as there is something in it. -/
def membersFrom (offset : Nat) : Nat → TokenSet → List Nat
  | 0, s => if s.has 0 then [offset] else []
  | e + 1, s =>
    if s == 0 then []
    else
      let half := 1 <<< e
      membersFrom offset e (s % 1 <<< half) ++ membersFrom (offset + half) e (s >>> half)

/-- The members of the set below a bound, in order. -/
def toList (bound : Nat) (s : TokenSet) : List Nat :=
  (membersFrom 0 (bound.log2 + 1) s).filter (· < bound)

/-- The set of some numbers. -/
def ofList (ns : List Nat) : TokenSet := ns.foldl insert empty

end TokenSet

end BundleReach.Script
