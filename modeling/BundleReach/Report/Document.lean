import BundleReach.Audit
import BundleReach.Json.Basic

/-!
# Audits as documents

Main definitions: `Finding.document` and `Audit.document`.
-/

namespace BundleReach

/-- A list of texts as a document. -/
def textList (items : List String) : Json := .list (items.map .text)

/-- A finding as a document; the bundle is told where there is one. -/
def Finding.document (f : Finding) : Json :=
  .object ([("kind", .text f.kind), ("modules", textList f.modules), ("message", .text f.message)]
    ++ match f.bundle? with
      | some b => [("bundle", .text b)]
      | none => [])

def ImportRecord.document (i : ImportRecord) : Json :=
  .object [("specifier", .text i.specifier), ("kind", .text i.kind.label),
    ("resolved", .text i.resolved)]

def ModuleRecord.document (r : ModuleRecord) : Json :=
  .object [("consumedFrom", textList r.consumedFrom), ("bundles", textList r.bundles),
    ("shippedIn", textList r.shippedIn), ("imports", .list (r.imports.map ImportRecord.document)),
    ("exports", match r.exports with
      | some names => textList names
      | none => .null)]

/-- The closures of an audit's bundles, by the paths of their modules. -/
def Audit.closureIds (a : Audit) : Table String (List String) :=
  a.closures.map fun e => (e.1, e.2.map a.graph.idOf)

/-- A finished audit as a document. -/
def Audit.document (a : Audit) : Json :=
  .object [("findings", .list (a.findings.map Finding.document)),
    ("modules", .object (a.records.map fun e => (e.1, e.2.document))),
    ("bundles", .object (a.closureIds.map fun e => (e.1, textList e.2)))]

end BundleReach
