import BundleReach.FileTree.Basic
import BundleReach.Package.Manifest

/-!
# Discovery of packages

A build output's packages are its application and whatever is reached from it by declared
dependencies.  A dependency is looked for in the package folder next to the package that declares
it, then in those of the folders above, never above the output root.  A dependency that is not
there, or has no readable manifest, is passed over.

Main definitions: `findPackageRoot` and `locatePackages`.
-/

namespace BundleReach

/-- A path with so many of the paths above it, nearest first. -/
def Path.upwards : Nat → Path → List Path
  | 0, p => [p]
  | n + 1, p => p :: upwards n p.parent

/-- The folders in which a dependency is looked for from a folder: that folder and those above it up
to the root.  From a folder outside the root it is that folder alone. -/
def searchFolders (root start : Path) : List Path :=
  if start.isWithin root then Path.upwards (start.parts.length - root.parts.length) start
  else [start]

/-- Where a package of a name would be installed in a folder. -/
def installPlace (folder : Path) (name : String) : Path :=
  (folder.child packageFolder).child name

/-- The folder of the package that a name means in a folder, without links. -/
def findPackageRoot (t : FileTree) (root start : Path) (name : String) : Option Path :=
  let places := ((searchFolders root start).filter (·.name != packageFolder)).map
    (installPlace · name)
  (places.find? fun p => t.isFile (p.child manifestName)).map t.resolve

/-- Why the packages of a build output cannot be told. -/
inductive DiscoveryFault where
  | noManifest (root : Path)
  | badManifest (manifest : Path) (fault : ManifestFault)
  | notAnApplication (manifest : Path)
  | nameless (manifest : Path)
  /-- A manifest's dependencies cannot be listed. -/
  | unlistable (fault : Unlistable)
  deriving DecidableEq, Repr

def DiscoveryFault.message : DiscoveryFault → String
  | noManifest root =>
    root.text ++ " has no " ++ manifestName ++ "; not a finalized build output"
  | badManifest manifest fault =>
    "Cannot read application manifest " ++ manifest.text ++ ": " ++ fault.message
  | notAnApplication manifest =>
    manifest.text ++ " does not declare an application (ember-addon.type must be \"app\")"
  | nameless manifest => manifest.text ++ " has no package name"
  | unlistable fault => fault.message

/-- The manifest in a package's folder, if it can be read. -/
def manifestAt? (t : FileTree) (root : Path) : Option Manifest :=
  match t.read (root.child manifestName) with
  | .error _ => none
  | .ok bytes => (Manifest.read bytes).toOption

/-- The application of the build output in a folder. -/
def loadApp (t : FileTree) (root : Path) : Except DiscoveryFault Package := do
  let path := root.child manifestName
  match t.read path with
  | .error _ => throw (.noManifest root)
  | .ok bytes =>
    match Manifest.read bytes with
    | .error fault => throw (.badManifest path fault)
    | .ok m =>
      if (m.addonMeta?.getD []).get "type" |>.same (.text "app") then
        match m.get "name" with
        | .text name =>
          if name = "" then throw (.nameless path)
          (m.package root .app).mapError .unlistable
        | _ => throw (.nameless path)
      else throw (.notAnApplication path)

/-- A dependency still to be looked for, with the folder of the package that declares it. -/
abbrev Sought := Path × String

/-- The dependencies that a package declares. -/
def Package.sought (p : Package) : List Sought := p.dependencies.map (p.root, ·)

/-- Looks for dependencies one by one, the roots in `seen` having been met before; `enter` goes on
where a new package is found. -/
def discoverWith (t : FileTree) (root : Path)
    (enter : List Sought → List Path → Except DiscoveryFault (List Package)) :
    List Sought → List Path → Except DiscoveryFault (List Package)
  | [], _ => .ok []
  | (owner, name) :: rest, seen =>
    match findPackageRoot t root owner name with
    | none => discoverWith t root enter rest seen
    | some place =>
      if place ∈ seen then discoverWith t root enter rest seen
      else
        match manifestAt? t place with
        | none => discoverWith t root enter rest (place :: seen)
        | some m => do
          let pkg ← (m.package place .addon).mapError DiscoveryFault.unlistable
          return pkg :: (← enter (pkg.sought ++ rest) (place :: seen))

/-- Looks for dependencies until so many packages have been found. -/
def discover (t : FileTree) (root : Path) :
    Nat → List Sought → List Path → Except DiscoveryFault (List Package)
  | 0 => fun _ _ => .ok []
  | most + 1 => discoverWith t root (discover t root most)

/-- The packages that an application depends on, each followed by its own dependencies.  No tree
has more packages than entries. -/
def locateAddons (t : FileTree) (root : Path) (app : Package) :
    Except DiscoveryFault (List Package) :=
  discover t root (t.entries.length + 1) app.sought [app.root]

/-- The packages of the build output in a folder without links: the application first. -/
def locatePackages (t : FileTree) (root : Path) : Except DiscoveryFault (List Package) := do
  let app ← loadApp t root
  return app :: (← locateAddons t root app)

end BundleReach
