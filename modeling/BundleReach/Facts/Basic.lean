/-!
# What a module says about itself

The facts that a module's text states on its own: which other modules it refers to, how, and which
names it offers.
-/

namespace BundleReach

/-- How a module refers to another one. -/
inductive LinkKind where
  /-- Loaded together with the module that refers to it. -/
  | static
  /-- Loaded later, on demand. -/
  | dynamic
  /-- Loaded together with the module, which offers its names on. -/
  | reexport
  deriving DecidableEq, Repr

/-- The word by which reports call a kind of link. -/
def LinkKind.label : LinkKind → String
  | static => "static"
  | dynamic => "dynamic"
  | reexport => "re-export"

/-- A reference to another module, as written: the names taken from it are those of that module,
`*` standing for all. -/
structure ImportRef where
  specifier : String
  kind : LinkKind
  names : List String
  line : Nat
  deriving DecidableEq, Repr

/-- The names that a module offers. -/
inductive ExportShape where
  | known (names : List String)
  /-- Nothing can be said without running the module. -/
  | unknown
  deriving DecidableEq, Repr

/-- The kind of module that a text turned out to be. -/
inductive ModuleFormat where
  | esm
  | cjs
  | script
  | json
  deriving DecidableEq, Repr

/-- The word by which reports call a format. -/
def ModuleFormat.label : ModuleFormat → String
  | esm => "esm"
  | cjs => "cjs"
  | script => "script"
  | json => "json"

/-- All that a module's text states. -/
structure ModuleFacts where
  format : ModuleFormat
  imports : List ImportRef
  exports : ExportShape
  deriving DecidableEq, Repr

/-- The names that a module is known to offer, if they are known. -/
def ModuleFacts.knownExports? (f : ModuleFacts) : Option (List String) :=
  match f.exports with
  | .known names => some names
  | .unknown => none

end BundleReach
