import BundleReach.Path.Basic
import BundleReach.Table
import BundleReach.Text.Utf8

/-!
# File trees

A tree holds files, folders and links, each under the parts that lead to it from the top.  Walking a
path follows links where it meets them, and a part that goes up leaves the folder that the walk has
reached, not the one that was written.

Main definitions: `FileTree.walk`, which ends at a file or folder or fails, and `FileTree.resolve`,
which takes the links out of a path and goes on where nothing is.
-/

namespace BundleReach

open Text (Bytes)

/-- What stands at a place of a tree. -/
inductive Entry where
  | file (content : Bytes)
  | folder
  /-- A stand-in for the place that a path leads to from the link's own folder. -/
  | link (target : Path)
  deriving DecidableEq, Repr

/-- The entries of a tree, each under the parts that lead to it.  The top is always a folder. -/
structure FileTree where
  entries : Table (List String) Entry
  deriving DecidableEq, Repr

/-- Why a place cannot be reached or read. -/
inductive AccessFault where
  | missing
  | notAFolder
  | isAFolder
  | tooManyLinks
  deriving DecidableEq, Repr

def AccessFault.message : AccessFault → String
  | missing => "No such file or directory"
  | notAFolder => "Not a directory"
  | isAFolder => "Is a directory"
  | tooManyLinks => "Too many levels of symbolic links"

namespace FileTree

/-- What stands at a place, links not followed. -/
def at? (t : FileTree) : List String → Option Entry
  | [] => some .folder
  | parts => Table.find? parts t.entries

/-! ## Walking -/

/-- Where the target of a link that stands in a folder starts. -/
def linkStart (folder : List String) (target : Path) : List String :=
  if target.isAbsolute then [] else folder

/-- Walks parts from a place; `follow` walks on from where a link leads. -/
def walkFrom (t : FileTree)
    (follow : List String → List String → Except AccessFault (List String))
    (place : List String) : List String → Except AccessFault (List String)
  | [] => .ok place
  | part :: rest =>
    match t.at? place with
    | some .folder =>
      if part = Path.up then walkFrom t follow place.dropLast rest
      else
        match t.at? (place ++ [part]) with
        | none => .error .missing
        | some (.link target) => follow (linkStart place target) (target.parts ++ rest)
        | some _ => walkFrom t follow (place ++ [part]) rest
    | some _ => .error .notAFolder
    | none => .error .missing

/-- Walks parts from a place through at most so many links. -/
def walkThrough (t : FileTree) : Nat → List String → List String →
    Except AccessFault (List String)
  | 0 => walkFrom t fun _ _ => .error .tooManyLinks
  | links + 1 => walkFrom t (walkThrough t links)

/-- A walk meets at most this many links. -/
def mostLinks : Nat := 40

/-- The place that a path leads to. -/
def walk (t : FileTree) (p : Path) : Except AccessFault (List String) :=
  walkThrough t mostLinks [] p.parts

/-- The place that a path leads to, with what stands there. -/
def entry? (t : FileTree) (p : Path) : Option Entry :=
  match t.walk p with
  | .ok place => t.at? place
  | .error _ => none

def isFile (t : FileTree) (p : Path) : Bool :=
  match t.entry? p with
  | some (.file _) => true
  | _ => false

def isFolder (t : FileTree) (p : Path) : Bool := t.entry? p == some .folder

/-- The content of the file that a path leads to. -/
def read (t : FileTree) (p : Path) : Except AccessFault Bytes := do
  match t.at? (← t.walk p) with
  | some (.file content) => return content
  | some .folder => throw .isAFolder
  | _ => throw .missing

/-! ## Resolving -/

/-- Takes the links out of parts that follow a place; `follow` tells where the parts of a link's
target lead. -/
def resolveFrom (t : FileTree) (follow : List String → List String → Option (List String))
    (place : List String) : List String → Option (List String)
  | [] => some place
  | part :: rest =>
    if part = Path.up then resolveFrom t follow place.dropLast rest
    else
      match t.at? (place ++ [part]) with
      | some (.link target) =>
        (follow (linkStart place target) target.parts).bind fun next =>
          resolveFrom t follow next rest
      | _ => resolveFrom t follow (place ++ [part]) rest

/-- Takes the links out of parts that follow a place, links within the targets of links so deep and
no deeper. -/
def resolveThrough (t : FileTree) : Nat → List String → List String → Option (List String)
  | 0 => resolveFrom t fun _ _ => none
  | depth + 1 => resolveFrom t (resolveThrough t depth)

/-- The path without links and without parts that go up.  The targets of links lead through links no
deeper than there are entries, unless they lead round; a path that leads round stays as it is. -/
def resolve (t : FileTree) (p : Path) : Path :=
  ⟨.root, (resolveThrough t t.entries.length [] p.parts).getD p.parts⟩

/-! ## Listing -/

/-- The part that leads on from a place, if the parts go one further. -/
def nextPart? (place parts : List String) : Option String :=
  match parts.getLast? with
  | some last => if parts.dropLast = place then some last else none
  | none => none

/-- The names in a folder. -/
def names (t : FileTree) (place : List String) : List String :=
  t.entries.filterMap fun e => nextPart? place e.1

/-- The paths directly below a path. -/
def children (t : FileTree) (p : Path) : List Path :=
  match t.walk p with
  | .ok place => (t.names place).map fun n => ⟨p.anchor, p.parts ++ [n]⟩
  | .error _ => []

/-- The paths below a path at any depth.  Folders behind links are not entered, but the path itself
may be a link. -/
def below (t : FileTree) (p : Path) : List Path :=
  match t.walk p with
  | .ok place =>
    t.entries.filterMap fun e =>
      if place.isPrefixOf e.1 ∧ e.1 ≠ place then
        some ⟨p.anchor, p.parts ++ e.1.drop place.length⟩
      else none
  | .error _ => []

/-! ## Making trees -/

/-- A tree with nothing but the top. -/
def bare : FileTree := ⟨[]⟩

/-- Makes the folders that lead from a place along parts, where nothing stands yet. -/
def addFolders (t : FileTree) (place : List String) : List String → FileTree
  | [] => t
  | part :: rest =>
    let next := place ++ [part]
    let t : FileTree := if (t.at? next).isSome then t else ⟨Table.put next .folder t.entries⟩
    addFolders t next rest

/-- Makes a folder and those that lead to it. -/
def addFolder (t : FileTree) (p : Path) : FileTree := t.addFolders [] p.parts

/-- Writes an entry, making the folders that lead to it. -/
def write (t : FileTree) (p : Path) (e : Entry) : FileTree :=
  ⟨Table.put p.parts e (t.addFolder p.parent).entries⟩

end FileTree

end BundleReach
