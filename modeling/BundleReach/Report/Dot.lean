import BundleReach.Audit

/-!
# Module graphs as DOT

A module graph is drawn as a DOT document, the modules of each bundle in a cluster.  A focus leaves
only the modules whose paths hold it, the edges that touch them, and the modules at their other
ends.

Main definitions: `Drawing.selection` and `Drawing.lines`.
-/

namespace BundleReach

/-- A text with a backslash before each double quote. -/
def escapeQuotes (s : String) : String :=
  String.ofList (Text.replaceMark '\x22' ['\\', '\x22'] s.toList)

/-- A text between double quotes. -/
def inQuotes (s : String) : String := "\"" ++ escapeQuotes s ++ "\""

/-- An edge between two modules, by their paths. -/
structure Arrow where
  source : String
  target : String
  kind : LinkKind
  deriving DecidableEq, Repr

/-- The line style of a kind of link. -/
def LinkKind.style : LinkKind → String
  | static => "solid"
  | dynamic => "dashed"
  | reexport => "dotted"

def Arrow.line (a : Arrow) : String :=
  "  " ++ inQuotes a.source ++ " -> " ++ inQuotes a.target ++ " [style=" ++ a.kind.style ++ "];"

/-- Whether an edge touches one of some modules. -/
def Arrow.touches (a : Arrow) (ids : List String) : Bool :=
  ids.contains a.source || ids.contains a.target

/-- What is drawn: modules in order, and edges. -/
structure Selection where
  nodes : List String
  arrows : List Arrow
  deriving DecidableEq, Repr

/-- A graph with the bundles to draw it by. -/
structure Drawing where
  graph : ModuleGraph
  bundles : List Bundle
  /-- The bundles that need each module, as an audit recorded them. -/
  reachedIn : Table String (List String)

namespace Drawing

/-- The modules of the graph by their paths. -/
def nodes (d : Drawing) : List String := d.graph.modules.map fun e => e.2.id

/-- The edges of the graph. -/
def arrows (d : Drawing) : List Arrow :=
  d.graph.edges.map fun e => ⟨d.graph.idOf e.importer, d.graph.targetId e.target, e.kind⟩

/-- What a focus selects: everything, if it is empty or no module's path holds it. -/
def selection (d : Drawing) (focus : String) : Selection :=
  let focused := d.nodes.filter (Text.holds focus)
  if focus = "" ∨ focused = [] then ⟨d.nodes, d.arrows⟩
  else
    let arrows := d.arrows.filter (·.touches focused)
    let ends := (arrows.flatMap fun a => [a.source, a.target]).filter d.nodes.contains
    let chosen := (focused ++ ends).foldl (fun all id => joinOnce id all) []
    ⟨inOrder (fun a b => decide (a ≤ b)) chosen, arrows⟩

/-- The paths of a bundle's entries. -/
def entryIds (d : Drawing) (b : Bundle) : List String := b.entries.map d.graph.idOf

/-- The modules drawn in a bundle's cluster: those chosen and not drawn before that are its entries
or that it needs. -/
def members (d : Drawing) (chosen placed : List String) (b : Bundle) : List String :=
  d.nodes.filter fun id =>
    chosen.contains id && !placed.contains id &&
      ((d.entryIds b).contains id || ((Table.find? id d.reachedIn).getD []).contains b.name)

/-- The lines of a bundle's cluster. -/
def clusterLines (d : Drawing) (index : Nat) (b : Bundle) (members : List String) : List String :=
  ["  subgraph cluster_" ++ toString index ++ " \x7b", "    label=" ++ inQuotes b.name ++ ";"] ++
    members.map (fun id =>
      "    " ++ inQuotes id ++ " [shape=" ++
        (if (d.entryIds b).contains id then "box" else "ellipse") ++ "];") ++
    ["  \x7d"]

/-- The lines of the clusters of bundles from a number on, and the modules drawn in them or
before. -/
def clusters (d : Drawing) (chosen : List String) :
    Nat → List String → List Bundle → List String × List String
  | _, placed, [] => ([], placed)
  | index, placed, b :: rest =>
    let members := d.members chosen placed b
    let (lines, all) := clusters d chosen (index + 1) (placed ++ members) rest
    ((if members.isEmpty then [] else d.clusterLines index b members) ++ lines, all)

/-- The lines of the document. -/
def lines (d : Drawing) (focus : String) : List String :=
  let s := d.selection focus
  let (clustered, placed) := d.clusters s.nodes 0 [] d.bundles
  let loose := (s.nodes.filter fun id => !placed.contains id).map fun id =>
    "  " ++ inQuotes id ++ ";"
  let hole :=
    if s.arrows.any (·.target == unresolvedName) then
      ["  \"" ++ unresolvedName ++ "\" [shape=octagon, color=red];"]
    else []
  ["digraph ModuleGraph \x7b", "  rankdir=LR;"] ++ clustered ++ loose ++ s.arrows.map Arrow.line ++
    hole ++ ["\x7d"]

/-- The document. -/
def document (d : Drawing) (focus : String) : String := "\n".intercalate (d.lines focus)

end Drawing

/-- The drawing of a finished audit. -/
def Audit.drawing (a : Audit) : Drawing :=
  ⟨a.graph, a.bundles, a.records.map fun e => (e.1, e.2.bundles)⟩

end BundleReach
