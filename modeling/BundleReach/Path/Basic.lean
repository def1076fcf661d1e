import BundleReach.Order
import BundleReach.Text.Piece

/-!
# Paths

A path is an anchor and a list of parts.  Reading a path drops its empty parts and the parts that
stay where they are (`.`), but keeps those that go up (`..`): what those mean depends on the links
in a file tree.  Only `Path.normal` takes them away, by the text alone.

Main definitions: `Path.ofString`, `Path.text`, `Path.join`, `Path.normal`, `Path.relativeTo` and
`Path.isWithin`.
-/

namespace BundleReach

/-- Where a path starts. -/
inductive Anchor where
  /-- Wherever its reader stands. -/
  | here
  | root
  /-- A root written with two slashes, which stay two. -/
  | doubleRoot
  deriving DecidableEq, Repr

/-- A place in a file tree, as it is written. -/
structure Path where
  anchor : Anchor
  parts : List String
  deriving DecidableEq, Repr

def Anchor.text : Anchor → String
  | here => ""
  | root => "/"
  | doubleRoot => "//"

namespace Path

/-- The part that goes up. -/
def up : String := ".."

/-! ## Reading and writing -/

/-- The anchor that a text begins with: three slashes or more are one. -/
def anchorOf : List Char → Anchor
  | '/' :: '/' :: '/' :: _ => .root
  | '/' :: '/' :: _ => .doubleRoot
  | '/' :: _ => .root
  | _ => .here

/-- The parts that a text names. -/
def partsOf (s : String) : List String :=
  (Text.pieces '/' s).filter fun p => p != "" && p != "."

/-- The path that a text writes. -/
def ofString (s : String) : Path := ⟨anchorOf s.toList, partsOf s⟩

/-- The text of a path. -/
def text (p : Path) : String :=
  let written := p.anchor.text ++ "/".intercalate p.parts
  if written = "" then "." else written

/-! ## Parts -/

/-- The topmost path. -/
def top : Path := ⟨.root, []⟩

def isAbsolute (p : Path) : Bool := p.anchor != .here

/-- The last part of a path; an anchor has no name. -/
def name (p : Path) : String := p.parts.getLastD ""

/-- The path without its last part. -/
def parent (p : Path) : Path := ⟨p.anchor, p.parts.dropLast⟩

/-- A path seen from another one; an absolute one stays as it is. -/
def join (p q : Path) : Path := if q.isAbsolute then q else ⟨p.anchor, p.parts ++ q.parts⟩

/-- The path that a text writes, seen from another path. -/
def child (p : Path) (s : String) : Path := p.join (ofString s)

/-- The name's ending from its last dot on.  A dot at either end of a name begins no ending. -/
def ending (p : Path) : String :=
  let cs := p.name.toList
  let tail := cs.reverse.takeWhile (· != '.')
  if tail.isEmpty ∨ cs.length ≤ tail.length + 1 then ""
  else String.ofList ('.' :: tail.reverse)

/-- Whether a path is another one or lies below it, by the text alone. -/
def isWithin (p ancestor : Path) : Bool :=
  p.anchor == ancestor.anchor && ancestor.parts.isPrefixOf p.parts

/-- Why a path cannot get another name. -/
inductive RenameFault where
  /-- It has no name to change. -/
  | nameless (p : Path)
  /-- What was given is not one part. -/
  | badName (name : String)
  deriving DecidableEq, Repr

/-- The path with another last part. -/
def rename (p : Path) (name : String) : Except RenameFault Path :=
  if p.name = "" then .error (.nameless p)
  else if name = "" ∨ Text.finishesWith "/" name ∨ (ofString name).isAbsolute ∨
      (partsOf name).length ≠ 1 then .error (.badName name)
  else .ok ⟨p.anchor, p.parts.dropLast ++ [name]⟩

/-! ## Normal form -/

/-- Adds a part to a stack of parts, its top first: going up takes away the part below it, unless
there is none. -/
def pushPart (anchored : Bool) (stack : List String) (part : String) : List String :=
  if part = up then
    match stack with
    | [] => if anchored then [] else [up]
    | below :: rest => if below = up then up :: below :: rest else rest
  else part :: stack

/-- The path without parts that go up, as far as the text alone can tell. -/
def normal (p : Path) : Path :=
  ⟨p.anchor, (p.parts.foldl (pushPart p.isAbsolute) []).reverse⟩

/-- What two lists begin with alike. -/
def commonStart : List String → List String → List String
  | a :: as, b :: bs => if a = b then a :: commonStart as bs else []
  | _, _ => []

/-- The parts that lead from one absolute path to another: up to what they share, then down. -/
def stepsFrom (start p : Path) : List String :=
  let origin := start.normal.parts
  let goal := p.normal.parts
  let shared := (commonStart origin goal).length
  List.replicate (origin.length - shared) up ++ goal.drop shared

/-- A path as seen from an absolute path: below it as `./x/y`, elsewhere as `../x`. -/
def relativeTo (start p : Path) : String :=
  match stepsFrom start p with
  | [] => "./."
  | first :: rest =>
    let written := "/".intercalate (first :: rest)
    if first = up then written else "./" ++ written

/-! ## Order -/

/-- Whether one list of parts comes before another or equals it, part by part, by code point. -/
def partsLE : List String → List String → Bool
  | [], _ => true
  | _ :: _, [] => false
  | a :: as, b :: bs => if a = b then partsLE as bs else decide (a < b)

/-- Paths of one anchor in order. -/
def le (p q : Path) : Bool := partsLE p.parts q.parts

/-- Paths sorted part by part. -/
def sorted (ps : List Path) : List Path := inOrder le ps

/-! ## Laws -/

@[simp] theorem join_of_isAbsolute {p q : Path} (h : q.isAbsolute = true) : p.join q = q := by
  simp [join, h]

@[simp] theorem parts_join_of_here {p : Path} {parts : List String} :
    (p.join ⟨.here, parts⟩) = ⟨p.anchor, p.parts ++ parts⟩ := by
  simp [join, isAbsolute]

@[simp] theorem isWithin_self (p : Path) : p.isWithin p = true := by
  simp [isWithin]

theorem isWithin_iff {p ancestor : Path} :
    p.isWithin ancestor = true ↔
      p.anchor = ancestor.anchor ∧ ∃ below, p.parts = ancestor.parts ++ below := by
  simp only [isWithin, Bool.and_eq_true, beq_iff_eq, List.isPrefixOf_iff_prefix]
  exact and_congr_right fun _ => ⟨fun ⟨t, h⟩ => ⟨t, h.symm⟩, fun ⟨t, h⟩ => ⟨t, h.symm⟩⟩

end Path

end BundleReach
