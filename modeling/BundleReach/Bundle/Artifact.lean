import BundleReach.Bundle.Basic
import BundleReach.FileTree.Basic

/-!
# Bundles on disk

The bundles folder of a build output has a folder for each bundle, with the modules shipped in it.
A folder that no bundle accounts for is an orphan.

Main definitions: `listArtifact` and `observeArtifacts`.
-/

namespace BundleReach

/-- Whether a file is a module by its name. -/
def isModuleName (extensions : List String) (name : String) : Bool :=
  extensions.any (Text.finishesWith · name)

/-- The module files below a folder, each by its path as seen from the folder, sorted. -/
def listArtifact (t : FileTree) (folder : Path) (extensions : List String) : Table String Path :=
  let files := (Path.sorted (t.below folder)).filter fun p =>
    t.isFile p && isModuleName extensions p.name
  Table.ofEntries (files.map fun p => (folder.relativeTo p, p))

/-- A bundle with the files shipped in its folder, of which there are none if it has no folder. -/
def Bundle.observe (t : FileTree) (bundlesFolder : Path) (extensions : List String) (b : Bundle) :
    Bundle :=
  let folder := bundlesFolder.child b.name
  { b with physical := some (if t.isFolder folder then listArtifact t folder extensions else []) }

/-- The folders of a bundles folder that belong to none of the bundles, sorted. -/
def orphanFolders (t : FileTree) (bundlesFolder : Path) (bundles : List Bundle) : List Path :=
  Path.sorted ((t.children bundlesFolder).filter fun p =>
    t.isFolder p && !(bundles.map Bundle.name).contains p.name)

/-- The bundle that an orphaned folder makes. -/
def orphanBundle (t : FileTree) (extensions : List String) (folder : Path) : Bundle :=
  ⟨folder.name, [], some (listArtifact t folder extensions)⟩

/-- The bundles with what is shipped in them, and the orphans.  Without a bundles folder nothing is
known of either. -/
def observeArtifacts (t : FileTree) (bundlesFolder : Path) (extensions : List String)
    (bundles : List Bundle) : List Bundle × Option (List Bundle) :=
  if t.isFolder bundlesFolder then
    (bundles.map (Bundle.observe t bundlesFolder extensions),
      some ((orphanFolders t bundlesFolder bundles).map (orphanBundle t extensions)))
  else (bundles, none)

end BundleReach
