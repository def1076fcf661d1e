import BundleReach.Finding.Rules
import BundleReach.Graph.Build

/-!
# Audits

An audit takes a build output through all stages: its packages, its module graph, its bundles with
their closures, and what is wrong with them.

Main definitions: `runAudit`, `Audit` and `moduleRecords`.
-/

namespace BundleReach

/-- Why an output cannot be audited. -/
inductive AuditFault where
  | notAFolder (root : Path)
  | settings (fault : SettingsFault)
  | discovery (fault : DiscoveryFault)
  /-- The application's entry names no file. -/
  | noEntry (entry : String) (root : Path)
  | build (fault : BuildFault)
  deriving DecidableEq, Repr

def AuditFault.message : AuditFault → String
  | notAFolder root => root.text ++ " is not a directory"
  | settings fault => fault.message
  | discovery fault => fault.message
  | noEntry entry root => "Application entry '" ++ entry ++ "' not found under " ++ root.text
  | build fault => fault.message

/-- Whether the output or its settings are to blame, and not the audit. -/
def AuditFault.isConfiguration : AuditFault → Bool
  | notAFolder _ => true
  | settings (.badText _) | settings (.misuse _) => false
  | settings _ => true
  | discovery (.unlistable _) => false
  | discovery _ => true
  | noEntry _ _ => true
  | build _ => false

/-- The application's entry where its manifest names none. -/
def defaultEntry : String := "./app.js"

/-- An import in a module's record: what is imported, how, and where it leads. -/
structure ImportRecord where
  specifier : String
  kind : LinkKind
  resolved : String
  deriving DecidableEq, Repr

/-- What an audit tells about a module. -/
structure ModuleRecord where
  consumedFrom : List String := []
  /-- The bundles that need the module. -/
  bundles : List String := []
  /-- The bundles that ship it. -/
  shippedIn : List String := []
  imports : List ImportRecord := []
  exports : Option (List String) := none
  deriving DecidableEq, Repr

/-- A finished audit. -/
structure Audit where
  packages : List Package
  graph : ModuleGraph
  /-- The bundles of the graph. -/
  computed : List Bundle
  /-- The bundles on disk that the graph does not account for. -/
  orphans : List Bundle
  closures : Closures
  findings : List Finding
  records : Table String ModuleRecord

namespace Audit

def bundles (a : Audit) : List Bundle := a.computed ++ a.orphans

/-- Whether nothing is wrong. -/
def isClean (a : Audit) : Bool := a.findings.isEmpty

end Audit

/-- The bundles that need a module, in order. -/
def bundlesReaching (bundles : List Bundle) (c : Closures) (p : Path) : List String :=
  bundles.flatMap fun b => ((closureOf c b).filter (· == p)).map fun _ => b.name

/-- The record of a module of the graph. -/
def recordOf (g : ModuleGraph) (bundles : List Bundle) (c : Closures) (m : Module) :
    ModuleRecord :=
  { consumedFrom := (g.importersOf m.path).map g.idOf
    bundles := bundlesReaching bundles c m.path
    imports := (g.outEdges m.path).map fun e => ⟨e.specifier, e.kind, g.targetId e.target⟩
    exports := m.facts.bind ModuleFacts.knownExports? }

/-- Adds to records that a bundle ships what it ships. -/
def recordShipped (records : Table String ModuleRecord) (b : Bundle) : Table String ModuleRecord :=
  (Table.keys (b.physical.getD [])).foldl (fun records m =>
    Table.change m {} (fun r => { r with shippedIn := r.shippedIn ++ [b.name] }) records) records

/-- The records of the graph's modules and of whatever the bundles ship, by their paths as seen from
the root. -/
def moduleRecords (g : ModuleGraph) (bundles : List Bundle) (c : Closures) :
    Table String ModuleRecord :=
  bundles.foldl recordShipped
    (Table.ofEntries (g.modules.map fun e => (e.2.id, recordOf g bundles c e.2)))

/-- Audits the output of an application whose graph has been built. -/
def auditGraph (t : FileTree) (root : Path) (settings : Settings) (packages : List Package)
    (built : ModuleGraph) : Audit :=
  let g := built.apply .freeze
  let c := closures g (partition g)
  let (computed, orphans) := observeArtifacts t (root.child settings.bundlesFolder)
    settings.extensions (partition g)
  let orphans := orphans.getD []
  { packages := packages
    graph := g
    computed := computed
    orphans := orphans
    closures := c
    findings := findings t g (computed ++ orphans) c packages
    records := moduleRecords g (computed ++ orphans) c }

/-- The settings given, or else those on disk. -/
def settingsFor (e : Environment) (t : FileTree) (root : Path) (given : Option Settings) :
    Except SettingsFault Settings :=
  match given with
  | some s => .ok s
  | none => (loadSettings e t (some root)).map LoadedSettings.settings

/-- Audits the build output in a folder. -/
def runAudit (e : Environment) (t : FileTree) (output : Path) (given : Option Settings) :
    Except AuditFault Audit := do
  if !t.isFolder output then throw (.notAFolder output)
  let root := t.resolve output
  let settings ← (settingsFor e t root given).mapError AuditFault.settings
  let app ← (loadApp t root).mapError AuditFault.discovery
  let addons ← (locateAddons t root app).mapError AuditFault.discovery
  let r : GraphBuilder := ⟨⟨t, app, addons, settings⟩, e.parse⟩
  let entry := match app.main with
    | none | some "" => defaultEntry
    | some main => main
  match ← (r.probe (app.root.child entry)).mapError (AuditFault.build ∘ BuildFault.rename) with
  | none => throw (.noEntry entry root)
  | some main =>
    let built ← (buildGraph r main).mapError AuditFault.build
    return auditGraph t root settings (app :: addons) built

end BundleReach
