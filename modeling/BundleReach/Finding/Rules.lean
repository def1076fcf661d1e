import BundleReach.Bundle.Artifact
import BundleReach.Finding.Basic
import BundleReach.Finding.Exports

/-!
# Rules

The rules that a build output has to keep, each with the findings where it is broken.

Main definition: `findings`, all of them in order.
-/

namespace BundleReach

/-! ## The graph -/

/-- Every module can be read. -/
def parseErrors (g : ModuleGraph) : List Finding :=
  g.modules.filterMap fun e => e.2.fault.map (.parseError e.2.id)

/-- Every import leads somewhere. -/
def unresolvedImports (g : ModuleGraph) : List Finding :=
  g.unresolved.map fun u => .unresolvedImport (g.idOf u.importer) u.specifier u.reason

/-! ## Bundles -/

/-- A bundle ships what it needs and nothing else. -/
def bundleMismatches (g : ModuleGraph) (c : Closures) (b : Bundle) : List Finding :=
  match b.physical with
  | none => []
  | some shipped =>
    let needed := (closureOf c b).map g.idOf
    (shipped.keys.filter fun m => !needed.contains m).map (.unreachableInBundle · b.name) ++
      (needed.filter fun m => !shipped.has m).map (.missingFromBundle · b.name)

/-- The bundles that need a module and ship it, each with the file that it ships, once for every
path by which it needs the module. -/
def holders (g : ModuleGraph) (bundles : List Bundle) (c : Closures) (m : String) :
    List (Bundle × Path) :=
  bundles.flatMap fun b =>
    match b.physical.bind (Table.find? m) with
    | none => []
    | some file => ((closureOf c b).filter fun p => g.idOf p == m).map fun _ => (b, file)

/-- The contents of the files that bundles ship, the last one counting of bundles with one name. -/
def contents (t : FileTree) (held : List (Bundle × Path)) :
    Table String (Option Text.Bytes) :=
  Table.ofEntries (held.map fun h => (h.1.name, (t.read h.2).toOption))

/-- Whether not all items of a list are equal. -/
def differ {α : Type} [DecidableEq α] : List α → Bool
  | a :: rest => rest.any (· ≠ a)
  | [] => false

/-- Bundles that ship one module ship the same content. -/
def crossBundleDuplicates (t : FileTree) (g : ModuleGraph) (bundles : List Bundle)
    (c : Closures) : List Finding :=
  g.modules.filterMap fun e =>
    let held := holders g bundles c e.2.id
    if 2 ≤ held.length ∧ differ ((contents t held).map Prod.snd) then
      some (.crossBundleDuplicate e.2.id (held.map fun h => h.1.name))
    else none

/-! ## Packages -/

/-- A package's public assets are there. -/
def brokenPublicAssets (t : FileTree) (g : ModuleGraph) (pkg : Package) : List Finding :=
  pkg.publicAssets.filterMap fun asset =>
    let file := pkg.root.child asset.1
    if t.isFile file then none
    else some (.brokenPublicAsset (g.idOf file) pkg.name asset.1 asset.2)

/-! ## Names -/

/-- The names that an edge takes from its target: none if the import waits for the program to
run. -/
def wantedNames (e : ImportEdge) : List String :=
  if e.kind = .dynamic then [] else e.names.filter (· != "*")

/-- The names wanted of a module that it is known not to offer. -/
def lackedNames (answer : Option (List String)) (wanted : List String) : List String :=
  match answer with
  | none => []
  | some offered => wanted.filter fun n => !offered.contains n

/-- A module offers the names that others take from it.  Yields also what is remembered of the names
offered. -/
def missingExports (g : ModuleGraph) : List ImportEdge → NameMemory → List Finding × NameMemory
  | [], memory => ([], memory)
  | e :: rest, memory =>
    match e.target, wantedNames e with
    | some target, first :: more =>
      let (answer, memory) := offeredNames g target memory
      let missing := lackedNames answer (first :: more)
      let (others, memory) := missingExports g rest memory
      (missing.map (.missingExport (g.idOf e.importer) · (g.idOf target)) ++ others, memory)
    | _, _ => missingExports g rest memory

/-! ## All rules -/

/-- What is wrong with a build output. -/
def findings (t : FileTree) (g : ModuleGraph) (bundles : List Bundle) (c : Closures)
    (packages : List Package) : List Finding :=
  parseErrors g ++ unresolvedImports g ++ bundles.flatMap (bundleMismatches g c) ++
    crossBundleDuplicates t g bundles c ++ packages.flatMap (brokenPublicAssets t g) ++
    (missingExports g g.edges []).1

end BundleReach
