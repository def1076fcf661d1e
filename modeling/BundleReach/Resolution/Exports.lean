import BundleReach.Json.Basic
import BundleReach.Text.Piece

/-!
# What a package lets others import

A package's exports give a target for each path that others may import, `.` standing for the package
itself.  A path may have one `*`, which stands for any characters.  A target is a file, a list of
which the first usable one counts, or a choice among conditions.

Main definitions: `pickTarget`, which reads a target, and `matchExports`, which looks a path up.
-/

namespace BundleReach.Exports

/-- What the first of three conditions that a target names leads to. -/
def firstNamed (a b c : Option (Option String)) : Option String :=
  match a, b, c with
  | some file, _, _ => file
  | none, some file, _ => file
  | none, none, some file => file
  | none, none, none => none

/-- The file that a target leads to.  Of a list, the first item that leads to one counts; of
conditions, `import`, else `browser`, else `default`, whether or not it leads to a file. -/
def pickTarget : Json → Option String
  | .text file => some file
  | .list items => pickItem items
  | .object members =>
    firstNamed (pickMember "import" members) (pickMember "browser" members)
      (pickMember "default" members)
  | _ => none
where
  /-- The file of the first item that leads to one. -/
  pickItem : List Json → Option String
    | [] => none
    | item :: rest => match pickTarget item with
      | some file => some file
      | none => pickItem rest
  /-- What a member leads to, if there is one of the name. -/
  pickMember (name : String) : List (String × Json) → Option (Option String)
    | [] => none
    | m :: rest => if m.1 = name then some (pickTarget m.2) else pickMember name rest

/-- The targets by path.  Exports that name no paths are the target for the package itself. -/
def targets : Json → Table String Json
  | .object members =>
    if !members.isEmpty && members.all (fun m => !Text.beginsWith "." m.1) then
      [(".", .object members)]
    else members
  | .text file => [(".", .text file)]
  | .list items => [(".", .list items)]
  | _ => []

/-- What a key matches of a pattern's first `*`, if it fits the pattern. -/
def wildcardMatch (pattern key : List Char) : Option (List Char) :=
  if pattern.contains '*' then
    let start := pattern.takeWhile (· != '*')
    let finish := (pattern.dropWhile (· != '*')).drop 1
    if start.isPrefixOf key ∧ finish.isSuffixOf key ∧ start.length + finish.length ≤ key.length then
      some ((key.drop start.length).take (key.length - start.length - finish.length))
    else none
  else none

/-- The file that the first fitting pattern with a usable target leads to. -/
def matchPattern (key : List Char) : Table String Json → Option String
  | [] => none
  | (pattern, target) :: rest =>
    match wildcardMatch pattern.toList key, pickTarget target with
    | some matched, some file =>
      some (String.ofList (Text.replaceMark '*' matched file.toList))
    | _, _ => matchPattern key rest

/-- The file that a path leads to.  A target for the path as it is written decides alone. -/
def matchExports (exports : Json) (key : String) : Option String :=
  match Table.find? key (targets exports) with
  | some target => pickTarget target
  | none => matchPattern key.toList (targets exports)

end BundleReach.Exports
