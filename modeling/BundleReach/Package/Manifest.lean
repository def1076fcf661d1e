import BundleReach.Json.Printer
import BundleReach.Json.Reader
import BundleReach.Package.Basic
import BundleReach.Text.Utf8

/-!
# Manifests

A manifest is a JSON object.  Whatever in it has another form than expected is passed over, save
dependencies that cannot be listed.

Main definitions: `Manifest.read` and `Manifest.package`.
-/

namespace BundleReach

open Text (Bytes)

/-- The members of a package's manifest. -/
abbrev Manifest := Table String Json

/-- Why a file is no manifest. -/
inductive ManifestFault where
  | badText (fault : Text.DecodeError)
  | badJson (fault : Json.Error)
  | notAnObject
  deriving DecidableEq, Repr

def ManifestFault.message : ManifestFault → String
  | badText fault => fault.message
  | badJson fault => fault.message
  | notAnObject => "manifest is not a JSON object"

/-- Dependencies that are no list of any sort. -/
inductive Unlistable where
  | bool
  | int
  | float
  deriving DecidableEq, Repr

def Unlistable.message : Unlistable → String
  | bool => "'bool' object is not iterable"
  | int => "'int' object is not iterable"
  | float => "'float' object is not iterable"

namespace Manifest

/-- Reads the manifest that a file holds. -/
def read (bytes : Bytes) : Except ManifestFault Manifest :=
  match Text.decode bytes with
  | .error fault => .error (.badText fault)
  | .ok cs =>
    match Json.read (Text.unifyLineEnds cs) with
    | .error fault => .error (.badJson fault)
    | .ok (.object members) => .ok members
    | .ok _ => .error .notAnObject

/-- A member of the manifest, null if there is none. -/
def get (m : Manifest) (name : String) : Json := (Table.find? name m).getD .null

/-- The member that describes the package as an addon, or as an application. -/
def addonMember : String := "ember-addon"

/-- What the manifest says about the package as an addon: a member of its own, or nothing but a
keyword. -/
def addonMeta? (m : Manifest) : Option Manifest :=
  match m.get addonMember with
  | .object members => some members
  | _ =>
    match m.get "keywords" with
    | .list items => if items.any (·.same (.text addonMember)) then some [] else none
    | _ => none

/-- The entries of an object whose values are texts. -/
def textEntries : Json → Table String String
  | .object members => members.filterMap fun e => e.2.text?.map (e.1, ·)
  | _ => []

/-- What a member lists: the names in an object, the items of a list, the characters of a text.
Whatever counts as nothing lists nothing. -/
def listed (j : Json) : Except Unlistable (List Json) :=
  match j with
  | .object members => .ok (members.map fun e => .text e.1)
  | .list items => .ok items
  | .text s => .ok (s.toList.map fun c => .text (String.singleton c))
  | .null => .ok []
  | .bool b => if b then .error .bool else .ok []
  | .int i => if i = 0 then .ok [] else .error .int
  | .float d => if d.isInt 0 then .ok [] else .error .float

/-- What a package depends on.  An application also has what it depends on while it is developed,
without repeating what it depends on anyway. -/
def dependencies (m : Manifest) (kind : PackageKind) : Except Unlistable (List String) := do
  let always ← listed (m.get "dependencies")
  let atWork ←
    if kind = .app then listed (m.get "devDependencies") else pure []
  let more := atWork.filter fun d => !always.any (·.same d)
  return (always ++ more).map Json.wording

/-- The version of the addon format: the first, where none is given as a whole number. -/
def addonVersion (addon : Manifest) : Numeral.Whole :=
  match Table.find? "version" addon with
  | some (.int n) => .number n
  | some (.bool b) => .flag b
  | _ => .number 1

/-- The file that stands for the whole package; an application may name another one for itself. -/
def mainFile (m : Manifest) (addon : Manifest) (kind : PackageKind) : Option String :=
  let own := if kind = .app then addon.get "main" else .null
  (if own.isPresent then own else m.get "main").text?

/-- The package that a manifest in a folder describes. -/
def package (m : Manifest) (root : Path) (kind : PackageKind) : Except Unlistable Package := do
  let dependencies ← m.dependencies kind
  let addon := m.addonMeta?.getD []
  return {
    name := ((Table.find? "name" m).map Json.wording).getD root.name
    root := root
    kind := kind
    addonVersion := m.addonMeta?.map addonVersion
    main := m.mainFile addon kind
    module := (m.get "module").text?
    exports := match m.get "exports" with
      | .null => none
      | j => some j
    publicAssets := textEntries (addon.get "public-assets")
    appModules := textEntries (addon.get "app-js")
    renamedPackages := textEntries (addon.get "renamed-packages")
    renamedModules := textEntries (addon.get "renamed-modules")
    dependencies := dependencies }

end Manifest

end BundleReach
