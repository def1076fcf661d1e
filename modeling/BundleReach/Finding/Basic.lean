/-!
# Findings

A finding is one thing that is wrong with a build output.  Modules appear in findings by their paths
as seen from the output's root.

Main definitions: `Finding`, `Finding.message` and `Finding.line`.
-/

namespace BundleReach

/-- One thing that is wrong. -/
inductive Finding where
  /-- A module states no facts. -/
  | parseError (module fault : String)
  | unresolvedImport (importer specifier reason : String)
  /-- A file is shipped in a bundle that does not need it. -/
  | unreachableInBundle (module bundle : String)
  /-- A bundle lacks a module that it needs. -/
  | missingFromBundle (module bundle : String)
  /-- Bundles ship one module with different contents. -/
  | crossBundleDuplicate (module : String) (bundles : List String)
  /-- A package's public asset is not there. -/
  | brokenPublicAsset (file package name destination : String)
  /-- A module takes a name that another one does not offer. -/
  | missingExport (importer name target : String)
  deriving DecidableEq, Repr

namespace Finding

/-- The word for a kind of finding. -/
def kind : Finding → String
  | parseError .. => "parse-error"
  | unresolvedImport .. => "unresolved-import"
  | unreachableInBundle .. => "unreachable-in-bundle"
  | missingFromBundle .. => "missing-from-bundle"
  | crossBundleDuplicate .. => "cross-bundle-duplicate"
  | brokenPublicAsset .. => "broken-public-asset"
  | missingExport .. => "missing-export"

/-- The modules that a finding is about. -/
def modules : Finding → List String
  | parseError m _ => [m]
  | unresolvedImport importer _ _ => [importer]
  | unreachableInBundle m _ => [m]
  | missingFromBundle m _ => [m]
  | crossBundleDuplicate m _ => [m]
  | brokenPublicAsset file _ _ _ => [file]
  | missingExport importer _ target => [importer, target]

/-- The bundle that a finding is about, if it is about one. -/
def bundle? : Finding → Option String
  | unreachableInBundle _ b => some b
  | missingFromBundle _ b => some b
  | _ => none

def message : Finding → String
  | parseError m fault => m ++ " could not be parsed: " ++ fault
  | unresolvedImport importer specifier reason =>
    importer ++ " imports '" ++ specifier ++ "' which cannot be resolved (" ++ reason ++ ")"
  | unreachableInBundle m b =>
    m ++ " is shipped in bundle '" ++ b ++ "' but is not reachable from its entries"
  | missingFromBundle m b =>
    m ++ " is reachable in bundle '" ++ b ++ "' but absent from its output"
  | crossBundleDuplicate m bundles =>
    m ++ " ships with differing content in bundles " ++
      ", ".intercalate (bundles.map fun b => "'" ++ b ++ "'")
  | brokenPublicAsset _ package name destination =>
    package ++ " declares public asset '" ++ name ++ "' -> '" ++ destination ++
      "' but the file is missing"
  | missingExport importer name target =>
    importer ++ " imports '" ++ name ++ "' from " ++ target ++ ", which does not export it"

/-- A finding on one line; a bundle is told if it has a name. -/
def line (f : Finding) : String :=
  let place := match f.bundle? with
    | none | some "" => ""
    | some b => " [" ++ b ++ "]"
  f.kind ++ place ++ ": " ++ f.message

end Finding

end BundleReach
