import BundleReach.Text.Utf8
import BundleReach.Script.Lexeme

/-!
# Sources

The text of a script as it is read: its characters with the bytes and the lines that they stand on.
Places in a source are counted in characters.  A byte that belongs to no character counts as one.

Main definitions: `Source.ofBytes`, and `Source.slice` for the text between two places.
-/

namespace BundleReach.Script

open Text (Bytes)

/-- The text of a script. -/
structure Source where
  bytes : Array UInt8
  /-- What stands after each place, up to the end. -/
  rests : Array (List Char)
  /-- The number of bytes before each place. -/
  offsets : Array Nat
  /-- The number of line feeds before each place. -/
  lines : Array Nat

namespace Source

/-- The characters of some bytes, each with the number of its bytes. -/
def letters (bytes : Bytes) : List (Char × Nat) :=
  (Text.sequences bytes).flatMap fun
    | (.whole c, n) => [(c, n)]
    | (.bad _, n) => List.replicate n (Lexeme.noText, 1)

/-- A list and all its tails, the longest first. -/
def tails {α : Type} : List α → List (List α)
  | [] => [[]]
  | a :: as => (a :: as) :: tails as

/-- The sums of the front parts of a list, from a given number on. -/
def sums : Nat → List Nat → List Nat
  | n, [] => [n]
  | n, m :: ms => n :: sums (n + m) ms

/-- The source that some bytes are. -/
def ofBytes (bytes : Bytes) : Source :=
  let ls := letters bytes
  { bytes := bytes.toArray
    rests := (tails (ls.map (·.1))).toArray
    offsets := (sums 0 (ls.map (·.2))).toArray
    lines := (sums 0 (ls.map fun l => if l.1 = '\n' then 1 else 0)).toArray }

/-- The place at the end. -/
def size (s : Source) : Nat := s.rests.size - 1

/-- What stands after a place. -/
def rest (s : Source) (place : Nat) : List Char := s.rests.getD place []

/-- The number of bytes between two places. -/
def width (s : Source) (start stop : Nat) : Nat :=
  s.offsets.getD stop 0 - s.offsets.getD start 0

/-- The number of line feeds between two places. -/
def height (s : Source) (start stop : Nat) : Nat :=
  s.lines.getD stop 0 - s.lines.getD start 0

/-- The line of a place, the first one being line 1. -/
def lineAt (s : Source) (place : Nat) : Nat := s.lines.getD place 0 + 1

/-- The text between two places. -/
def slice (s : Source) (start stop : Nat) : String :=
  String.ofList (Text.decodeLossy
    (s.bytes.extract (s.offsets.getD start 0) (s.offsets.getD stop 0)).toList)

end Source

end BundleReach.Script
