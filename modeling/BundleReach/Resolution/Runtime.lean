import BundleReach.Text.Piece

/-!
# Modules supplied at run time

Some modules are never on disk: the framework supplies them when the bundles run, and so it is with
whatever the settings call external.

Main definition: `isRuntimeModule`.
-/

namespace BundleReach

/-- Modules that the framework supplies. -/
def runtimeModules : List String :=
  ["ember", "rsvp", "require", "jquery", "@embroider/macros", "ember-source", "ember-resolver",
    "ember-testing"]

/-- What the names of further modules begin with that the framework supplies. -/
def runtimeStarts : List String := ["@ember/", "@glimmer/", "@embroider/macros/"]

/-- What the modules below an external one begin with. -/
def externalStart (external : String) : String :=
  if Text.finishesWith "/" external then external else external ++ "/"

/-- Whether a specifier means a module that is supplied at run time. -/
def isRuntimeModule (externals : List String) (specifier : String) : Bool :=
  runtimeModules.contains specifier || externals.contains specifier ||
    (runtimeStarts ++ externals.map externalStart).any (Text.beginsWith · specifier)

end BundleReach
