import BundleReach.Json.Basic
import BundleReach.Numeral.Whole
import BundleReach.Path.Basic

/-!
# Packages

A build output is made of packages: the application first, then those it depends on.

Main definitions: `Package`, and `splitPackageName`, which tells the package in a module's specifier
from the path within it.
-/

namespace BundleReach

/-- The part that a package plays in a build output. -/
inductive PackageKind where
  | app
  | addon
  deriving DecidableEq, Repr

/-- A package of a build output, as its manifest describes it. -/
structure Package where
  name : String
  root : Path
  kind : PackageKind
  /-- The version of the addon format, if the package is an addon at all. -/
  addonVersion : Option Numeral.Whole := none
  main : Option String := none
  module : Option String := none
  /-- What the package lets others import; a package without it lets them import everything. -/
  exports : Option Json := none
  publicAssets : Table String String := []
  /-- Names in the application's namespace, with the package's own files that supply them. -/
  appModules : Table String String := []
  renamedPackages : Table String String := []
  renamedModules : Table String String := []
  dependencies : List String := []
  deriving Repr

namespace Package

def isApp (p : Package) : Bool := p.kind == .app

end Package

/-- The folder that packages are installed in. -/
def packageFolder : String := "node_modules"

/-- The file that describes a package. -/
def manifestName : String := "package.json"

/-- The name of the package that a specifier begins with, and the path within the package.  A name
with a scope takes two pieces. -/
def splitPackageName (specifier : String) : String × String :=
  let pieces := Text.pieces '/' specifier
  let width := if Text.beginsWith "@" specifier ∧ 2 ≤ pieces.length then 2 else 1
  ("/".intercalate (pieces.take width), "/".intercalate (pieces.drop width))

end BundleReach
