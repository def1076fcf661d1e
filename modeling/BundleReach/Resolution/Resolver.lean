import BundleReach.Package.Discovery
import BundleReach.Resolution.Exports
import BundleReach.Resolution.Runtime
import BundleReach.Settings

/-!
# Resolution of specifiers

A specifier is resolved as the loader of the audited program would: a module supplied at run time,
a path, a package's module, and at last what the application's rename tables and its addons' tables
make of the name.

Main definitions: `Resolver`, `Resolver.probe`, `Resolver.owner?` and `Resolver.resolve`.
-/

namespace BundleReach

open BundleReach.Path (RenameFault)

/-- How a specifier led to a file. -/
inductive Route where
  | relative
  | absolute
  | package
  | renamedModule
  | renamedPackage
  /-- By an addon's table of modules for the application's namespace. -/
  | appModule
  deriving DecidableEq, Repr

def Route.label : Route → String
  | relative => "relative"
  | absolute => "absolute"
  | package => "package"
  | renamedModule => "renamed-module"
  | renamedPackage => "renamed-package"
  | appModule => "app-js"

/-- Why a specifier leads nowhere. -/
inductive DeadEnd where
  | emptySpecifier
  | noRelativeFile
  | noAbsoluteFile
  | absentPackage (name : String)
  | noPackageFile
  deriving DecidableEq, Repr

def DeadEnd.reason : DeadEnd → String
  | emptySpecifier => "empty specifier"
  | noRelativeFile => "no file matches relative path"
  | noAbsoluteFile => "no file matches absolute path"
  | absentPackage name => "package '" ++ name ++ "' is not present in the build output"
  | noPackageFile => "no file matches package path"

/-- What a specifier leads to. -/
inductive Resolution where
  /-- A module supplied at run time. -/
  | supplied
  | found (path : Path) (route : Route)
  | failed (deadEnd : DeadEnd)
  deriving DecidableEq, Repr

/-- The packages of a build output with the files and settings that resolution goes by. -/
structure Resolver where
  tree : FileTree
  app : Package
  addons : List Package
  settings : Settings
  deriving Repr

namespace Resolver

/-- A resolver for packages that begin with the application. -/
def ofPackages (tree : FileTree) (packages : List Package) (settings : Settings) :
    Except String Resolver :=
  match packages.head?.filter Package.isApp with
  | some app => .ok ⟨tree, app, packages.tail, settings⟩
  | none => .error "the application package must come first"

def packages (r : Resolver) : List Package := r.app :: r.addons

/-! ## Packages -/

/-- Of two packages the one with the deeper root, the first if they are equally deep. -/
def deeper (a b : Package) : Package :=
  if a.root.parts.length < b.root.parts.length then b else a

/-- The innermost package that holds a path. -/
def owner? (r : Resolver) (p : Path) : Option Package :=
  match r.packages.filter fun pkg => p.isWithin pkg.root with
  | [] => none
  | first :: rest => some (rest.foldl deeper first)

/-- The package that a name means in a folder, if it is one of those located. -/
def named? (r : Resolver) (folder : Path) (name : String) : Option Package := do
  let root ← findPackageRoot r.tree (r.tree.resolve r.app.root) folder name
  r.packages.find? (·.root == root)

/-! ## Files -/

/-- The first file that a path becomes with one of the endings added to its name. -/
def probeEndings (r : Resolver) (p : Path) : List String → Except RenameFault (Option Path)
  | [] => .ok none
  | ending :: rest => do
    let q ← p.rename (p.name ++ ending)
    if r.tree.isFile q then return some q
    probeEndings r p rest

/-- The index files of a folder. -/
def indexFiles (r : Resolver) (p : Path) : List Path :=
  r.settings.extensions.map fun ending => p.child ("index" ++ ending)

/-- The file that a path means, links taken out: the path itself, the path with an ending, or its
index file. -/
def probe (r : Resolver) (candidate : Path) : Except RenameFault (Option Path) := do
  let p := candidate.normal
  if r.tree.isFile p then return some (r.tree.resolve p)
  match ← r.probeEndings p r.settings.extensions with
  | some q => return some (r.tree.resolve q)
  | none =>
    if r.tree.isFolder p then
      return ((r.indexFiles p).find? r.tree.isFile).map r.tree.resolve
    return none

/-! ## Packages' modules -/

/-- The file of the first entry that leads to one, or else the package's index file. -/
def probeEntries (r : Resolver) (pkg : Package) :
    List (Option String) → Except RenameFault (Option Path)
  | [] => r.probe (pkg.root.child "index")
  | entry :: rest => do
    match entry with
    | none | some "" => probeEntries r pkg rest
    | some file =>
      match ← r.probe (pkg.root.child file) with
      | some found => return some found
      | none => probeEntries r pkg rest

/-- The file that a path within a package means.  Exports say all there is to import from a package,
but not from the application. -/
def resolveInPackage (r : Resolver) (pkg : Package) (subpath : String) :
    Except RenameFault (Option Path) := do
  let key := if subpath = "" then "." else "./" ++ subpath
  match pkg.exports.bind (Exports.matchExports · key) with
  | some target => r.probe (pkg.root.child target)
  | none =>
    if pkg.exports.isSome && !pkg.isApp then return none
    if subpath = "" then r.probeEntries pkg [pkg.module, pkg.main]
    else r.probe (pkg.root.child subpath)

/-- The package that a name means in a module: its own package, the application, or one that is
installed for it. -/
def packageFor? (r : Resolver) (importer : Path) (name : String) : Option Package :=
  match (r.owner? importer).filter (·.name == name) with
  | some own => some own
  | none => if name = r.app.name then some r.app else r.named? importer.parent name

/-- The file that a specifier means that begins with a package's name. -/
def resolveBare (r : Resolver) (importer : Path) (specifier : String) :
    Except RenameFault (Option Path) :=
  let (name, subpath) := splitPackageName specifier
  match r.packageFor? importer name with
  | none => .ok none
  | some pkg => r.resolveInPackage pkg subpath

/-! ## Renamed and merged modules -/

/-- A specifier without the ending that scripts have. -/
def withoutScriptEnding (specifier : String) : String :=
  if Text.finishesWith ".js" specifier then Text.dropEnd 3 specifier else specifier

/-- The name that the application gives a module, whether its table has an ending or not. -/
def renamedModule? (r : Resolver) (specifier : String) : Option String :=
  (("" :: r.settings.extensions).findSome? fun ending =>
    Table.find? (specifier ++ ending) r.app.renamedModules).map withoutScriptEnding

/-- The first of an addon's files for some names in the application's namespace. -/
def probeAppModules (r : Resolver) (addon : Package) (wanted : List String) :
    Table String String → Except RenameFault (Option Path)
  | [] => .ok none
  | (name, file) :: rest => do
    if wanted.contains name then
      match ← r.probe (addon.root.child file) with
      | some found => return some found
      | none => probeAppModules r addon wanted rest
    else probeAppModules r addon wanted rest

/-- The first addon's file for some names. -/
def probeAddons (r : Resolver) (wanted : List String) :
    List Package → Except RenameFault (Option Path)
  | [] => .ok none
  | addon :: rest => do
    match ← r.probeAppModules addon wanted addon.appModules with
    | some found => return some found
    | none => probeAddons r wanted rest

/-- The file that addons supply for a module of the application; the addon located last wins. -/
def resolveAppModule (r : Resolver) (specifier : String) : Except RenameFault (Option Path) :=
  let (name, subpath) := splitPackageName specifier
  if name ≠ r.app.name ∨ subpath = "" then .ok none
  else
    r.probeAddons (("" :: r.settings.extensions).map fun ending => "./" ++ subpath ++ ending)
      r.addons.reverse

/-- The file of a renamed module. -/
def resolveRenamedModule (r : Resolver) (importer : Path) (specifier : String) :
    Except RenameFault (Option Path) := do
  match r.renamedModule? specifier with
  | none => return none
  | some renamed =>
    if renamed = specifier then return none
    match ← r.resolveBare importer renamed with
    | some found => return some found
    | none => r.resolveAppModule renamed

/-- The file of a module in a renamed package. -/
def resolveRenamedPackage (r : Resolver) (specifier : String) :
    Except RenameFault (Option Path) := do
  let (name, subpath) := splitPackageName specifier
  match Table.find? name r.app.renamedPackages with
  | none => return none
  | some renamed =>
    if renamed = "" ∨ renamed = name then return none
    r.resolveBare (r.app.root.child manifestName)
      (if subpath = "" then renamed else renamed ++ "/" ++ subpath)

/-- What the rename tables and the addons' tables make of a specifier. -/
def resolveMerged (r : Resolver) (importer : Path) (specifier : String) :
    Except RenameFault (Option (Path × Route)) := do
  match ← r.resolveRenamedModule importer specifier with
  | some found => return some (found, .renamedModule)
  | none =>
    match ← r.resolveRenamedPackage specifier with
    | some found => return some (found, .renamedPackage)
    | none => return (← r.resolveAppModule specifier).map (·, .appModule)

/-! ## Specifiers -/

/-- Whether a specifier starts from the importing module's folder. -/
def isRelative (specifier : String) : Bool :=
  Text.beginsWith "./" specifier || Text.beginsWith "../" specifier || specifier == "." ||
    specifier == ".."

/-- Why a specifier that begins with a package's name leads nowhere: its package is not there, or
has no such file. -/
def bareDeadEnd (r : Resolver) (importer : Path) (specifier : String) : DeadEnd :=
  let (name, _) := splitPackageName specifier
  match r.owner? importer with
  | none => .noPackageFile
  | some owner =>
    if name ≠ owner.name ∧ name ≠ r.app.name ∧ (r.named? importer.parent name).isNone then
      .absentPackage name
    else .noPackageFile

/-- What a specifier in a module leads to. -/
def resolve (r : Resolver) (importer : Path) (specifier : String) :
    Except RenameFault Resolution := do
  if specifier = "" then return .failed .emptySpecifier
  if isRuntimeModule r.settings.externals specifier then return .supplied
  if isRelative specifier then
    match ← r.probe (importer.parent.child specifier) with
    | some p => return .found p .relative
    | none => return .failed .noRelativeFile
  if Text.beginsWith "/" specifier then
    match ← r.probe (Path.ofString specifier) with
    | some p => return .found p .absolute
    | none => return .failed .noAbsoluteFile
  match ← r.resolveBare importer specifier with
  | some p => return .found p .package
  | none =>
    match ← r.resolveMerged importer specifier with
    | some (p, route) => return .found p route
    | none => return .failed (r.bareDeadEnd importer specifier)

/-- The names in the application's namespace that more than one addon supplies, each with the names
of those addons. -/
def appModuleConflicts (r : Resolver) : Table String (List String) :=
  let suppliers : Table String (List String) := r.addons.foldl (fun t addon =>
    (Table.keys addon.appModules).foldl (fun t name =>
      Table.change name [] (· ++ [addon.name]) t) t) []
  suppliers.filter fun e => 1 < e.2.length

end Resolver

/-- How the failure to rename a path is told. -/
def Path.RenameFault.message : Path.RenameFault → String
  | nameless p => "PosixPath(" ++ Json.plainText p.text ++ ") has an empty name"
  | badName name => "Invalid name " ++ Json.plainText name

end BundleReach
