import BundleReach.Graph.Closure
import BundleReach.Text.Piece

/-!
# Bundles

A graph has one bundle for each of its entries: the main bundle, and one for each module that is
imported dynamically.  A bundle is named for its entry's file; where that name is taken, for its
whole path, with a number if need be.

Main definitions: `Bundle`, `bundleName`, `partition` and `closures`.
-/

namespace BundleReach

/-- A bundle with its entries. -/
structure Bundle where
  name : String
  entries : List Path
  /-- The files shipped in the bundle, each by its path within the bundle's folder; unknown where
  there are no bundles on disk. -/
  physical : Option (Table String Path) := none
  deriving Repr

/-- The bundle that begins at the main entry. -/
def mainBundleName : String := "main"

/-- The first of `candidate-n`, `candidate-(n+1)`, … that is not taken. -/
def numberedName (taken : List String) (candidate : String) : Nat → Nat → String
  | 0, n => candidate ++ "-" ++ toString n
  | tries + 1, n =>
    let name := candidate ++ "-" ++ toString n
    if name ∈ taken then numberedName taken candidate tries (n + 1) else name

/-- A name that is not taken: the given one, or else the first free one with a number.  Among one
more number than there are names taken, one is free. -/
def freeName (taken : List String) (candidate : String) : String :=
  if candidate ∈ taken then numberedName taken candidate taken.length 2 else candidate

/-- A file's name up to its first dot; a name that begins with a dot is whole. -/
def stemOf (fileName : List Char) : List Char :=
  let stem := fileName.takeWhile (· != '.')
  if stem.isEmpty then fileName else stem

/-- The name of the bundle that begins at a module, given its path as seen from the root. -/
def bundleName (taken : List String) (entryId : String) : String :=
  let path := if Text.beginsWith "./" entryId then entryId.toList.drop 2 else entryId.toList
  let fileName := (Text.splitAtMark '/' path).getLastD []
  let stem := stemOf fileName
  if String.ofList stem ∉ taken then String.ofList stem
  else
    let whole := path.take (path.length - fileName.length) ++ stem
    freeName taken (String.ofList (Text.replaceMark '/' ['-'] whole))

/-- The bundles of entries that are imported dynamically, their names free of those taken. -/
def lazyBundles (g : ModuleGraph) : List String → List Path → List Bundle
  | _, [] => []
  | taken, entry :: rest =>
    let name := bundleName taken (g.idOf entry)
    ⟨name, [entry], none⟩ :: lazyBundles g (name :: taken) rest

/-- The bundles of a graph. -/
def partition (g : ModuleGraph) : List Bundle :=
  match g.bundleEntries with
  | [] => []
  | main :: rest => ⟨mainBundleName, [main], none⟩ :: lazyBundles g [mainBundleName] rest

/-- The closure of each bundle by its name. -/
abbrev Closures := Table String (List Path)

/-- The closures of bundles. -/
def closures (g : ModuleGraph) (bundles : List Bundle) : Closures :=
  Table.ofEntries (bundles.map fun b => (b.name, closure g b.entries))

/-- The closures of bundles of a graph that will not change. -/
def frozenClosures (g : ModuleGraph) (bundles : List Bundle) : Except String Closures :=
  if g.frozen then .ok (closures g bundles) else .error "reachability requires a frozen graph"

/-- The closure of a bundle. -/
def closureOf (c : Closures) (b : Bundle) : List Path := (Table.find? b.name c).getD []

end BundleReach
