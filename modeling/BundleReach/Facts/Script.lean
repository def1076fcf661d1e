import BundleReach.Facts.Basic
import BundleReach.Script.Tree

/-!
# The facts of a script

Reads the facts of a module off its syntax tree.  Every node contributes what it states by itself,
wherever it stands in the tree, and the facts are the contributions in reading order.

* `boundNames` — the names that a pattern is taken to bind.
* `declaredNames` — the names that an exported declaration introduces.
* `contribution` — what a single node states.
* `scriptFacts` — the facts of a whole script.
-/

namespace BundleReach.Facts

open Script

/-! ## Texts -/

/-- A text without its first and last character. -/
def inner (s : String) : String := String.ofList (s.toList.drop 1).dropLast

/-- A name without the quotes around it, if it is quoted. -/
def unquoted (s : String) : String :=
  match s.toList.head?, s.toList.getLast? with
  | some a, some b =>
    if 2 ≤ s.length && a == b && (a == '\x22' || a == '\x27') then inner s else s
  | _, _ => s

/-- The text of a string, or of a template without substitutions; escapes are not resolved. -/
def literal? (t : Tree) : Option String :=
  match t.kind with
  | .string => some (inner t.text)
  | .templateString =>
    if t.children.any (·.kind == .templateSubstitution) then none else some (inner t.text)
  | _ => none

/-- The text of the first argument of a call, if it is literal.  A comment in front of the argument
hides it. -/
def literalArgument? (call : Tree) : Option String :=
  ((call.child? .arguments).bind (·.namedChildren.head?)).bind literal?

/-- Is the node, or the entry, marked as concerning types only? -/
def isTypeOnly (t : Tree) : Bool := t.hasWord "type"

/-! ## Imports -/

/-- The name that an imported entry has in the module it comes from. -/
def specifierName? (t : Tree) : Option String :=
  if t.kind == .importSpecifier && !isTypeOnly t then (t.child? .name).map (unquoted ·.text)
  else none

/-- The names that a part of an import clause takes from the other module. -/
def partNames (t : Tree) : List String :=
  match t.kind with
  | .identifier => ["default"]
  | .namespaceImport => ["*"]
  | .namedImports => t.namedChildren.filterMap specifierName?
  | _ => []

/-- The names that an import statement takes from the other module. -/
def importNames (t : Tree) : List String :=
  if isTypeOnly t then []
  else
    let clauses := t.children.filter (·.kind == .importClause)
    clauses.flatMap fun c => c.namedChildren.flatMap partNames

/-! ## Exports -/

/-- The patterns whose direct names are taken to be bound. -/
def bindsNames (k : Kind) : Bool :=
  [Kind.arrayPattern, .pairPattern, .assignmentPattern, .restPattern].contains k

/-- The name that a node itself binds, under a parent of the given kind. -/
def ownName (parent : Kind) (t : Tree) : List String :=
  match t.kind with
  | .shorthandPropertyIdentifierPattern => [t.text]
  | .identifier =>
    if bindsNames parent && !(parent == .pairPattern && t.role == some .key) then [t.text] else []
  | _ => []

mutual

/-- The names bound strictly inside a node. -/
def namesWithin : Tree → List String
  | .node l cs => namesAmong l.kind cs

/-- The names bound in the children of a node of the given kind. -/
def namesAmong (parent : Kind) : List Tree → List String
  | [] => []
  | t :: ts => ownName parent t ++ namesWithin t ++ namesAmong parent ts

end

/-- The names that a pattern is taken to bind: itself, or the names directly inside patterns at
any depth, default values included. -/
def boundNames (t : Tree) : List String :=
  if t.kind == .identifier then [t.text] else namesWithin t

/-- The declarations whose names an export offers. -/
def isDeclaration (k : Kind) : Bool :=
  [Kind.functionDeclaration, .generatorFunctionDeclaration, .classDeclaration,
    .abstractClassDeclaration, .lexicalDeclaration, .variableDeclaration, .enumDeclaration,
    .interfaceDeclaration, .typeAliasDeclaration, .ambientDeclaration, .internalModule].contains k

/-- The names that a declarator introduces. -/
def declaratorNames (t : Tree) : List String :=
  if t.kind == .variableDeclarator then ((t.child? .name).map boundNames).getD [] else []

mutual

/-- The names that a declaration introduces. -/
def declaredNames : Tree → List String
  | .node l cs =>
    match l.kind with
    | .ambientDeclaration => ambientNames cs
    | .lexicalDeclaration => cs.flatMap declaratorNames
    | .variableDeclaration => cs.flatMap declaratorNames
    | _ => (cs.find? (·.role == some .name)).toList.map Tree.text

/-- The names of the first declaration among some nodes. -/
def ambientNames : List Tree → List String
  | [] => []
  | t :: ts => if isDeclaration t.kind then declaredNames t else ambientNames ts

end

/-- The names that the entries of an export clause have in the module they come from. -/
def sourceNames (clause : Tree) : List String :=
  clause.namedChildren.filterMap fun t =>
    if t.kind == .exportSpecifier && !isTypeOnly t then (t.child? .name).map (unquoted ·.text)
    else none

/-- The names under which the entries of an export clause are offered. -/
def offeredNames (clause : Tree) : List String :=
  clause.namedChildren.filterMap fun t =>
    if t.kind == .exportSpecifier then
      ((t.child? .alias).or (t.child? .name)).map (unquoted ·.text)
    else none

mutual

/-- Is the node a property of `exports` or of `module.exports`, or the latter itself? -/
def isExportsTarget : Tree → Bool
  | .node l cs =>
    l.kind == .memberExpression &&
      objectIsExports ((cs.find? (·.role == some .property)).map Tree.text) cs

/-- Is the object among these children `exports`, `module` before the property `exports`, or
itself such a target? -/
def objectIsExports (property : Option String) : List Tree → Bool
  | [] => false
  | t :: ts =>
    if t.role == some .object then
      (t.kind == .identifier &&
        (t.text == "exports" || (t.text == "module" && property == some "exports"))) ||
        isExportsTarget t
    else objectIsExports property ts

end

/-! ## Contributions -/

/-- What a part of a script states. -/
structure Contribution where
  imports : List ImportRef := []
  exports : List String := []
  /-- Is there an import or export statement? -/
  esm : Bool := false
  /-- Is there a literal `require` or an assignment to `exports`? -/
  cjs : Bool := false

namespace Contribution

/-- Nothing stated. -/
def empty : Contribution := {}

/-- What two parts state, the first one before the second one. -/
def append (a b : Contribution) : Contribution :=
  ⟨a.imports ++ b.imports, a.exports ++ b.exports, a.esm || b.esm, a.cjs || b.cjs⟩

instance : Append Contribution := ⟨append⟩

end Contribution

/-- What an import statement states. -/
def importContribution (t : Tree) : Contribution where
  esm := true
  imports := (((t.child? .source).bind literal?).map fun s =>
    ImportRef.mk s .static (importNames t) t.line).toList

/-- The names that an export statement takes from the module it names, and those that it offers
on. -/
def reexportedNames (t : Tree) : List String × List String :=
  match t.namedChildren.find? (·.kind == .exportClause) with
  | some c => (if isTypeOnly t then [] else sourceNames c, offeredNames c)
  | none =>
    match t.namedChildren.find? (·.kind == .namespaceExport) with
    | some n => ([], (n.namedChildren.getLast?.map fun name => unquoted name.text).toList)
    | none => (["*"], [])

/-- What an export statement states that names another module. -/
def reexportContribution (t source : Tree) : Contribution :=
  let (names, offered) := reexportedNames t
  { esm := true
    exports := offered
    imports := ((literal? source).map fun s => ImportRef.mk s .reexport names t.line).toList }

/-- The names that an export statement offers that names no other module. -/
def localExports (t : Tree) : List String :=
  if t.hasWord "default" then ["default"]
  else match t.namedChildren.find? (·.kind == .exportClause) with
    | some c => offeredNames c
    | none => match t.child? .declaration with
      | some d => if isDeclaration d.kind then declaredNames d else []
      | none => []

/-- What an export statement states. -/
def exportContribution (t : Tree) : Contribution :=
  match t.child? .source with
  | some source => reexportContribution t source
  | none => { esm := true, exports := localExports t }

/-- What a call states: `import` and `require` with a literal argument refer to a module. -/
def callContribution (t : Tree) : Contribution :=
  match t.child? .function with
  | none => .empty
  | some f =>
    if f.kind == .importValue then
      { imports := ((literalArgument? t).map fun s =>
          ImportRef.mk s .dynamic ["*"] t.line).toList }
    else if f.kind == .identifier && f.text == "require" then
      match literalArgument? t with
      | some s => { imports := [⟨s, .static, ["*"], t.line⟩], cjs := true }
      | none => .empty
    else .empty

/-- What a node states by itself. -/
def contribution (t : Tree) : Contribution :=
  match t.kind with
  | .importStatement => importContribution t
  | .exportStatement => exportContribution t
  | .callExpression => callContribution t
  | .assignmentExpression => { cjs := ((t.child? .left).map isExportsTarget).getD false }
  | _ => .empty

/-- What all the nodes of a script state, in reading order. -/
def statements (root : Tree) : Contribution :=
  (root.preorder.map contribution).foldr Contribution.append .empty

/-- The facts of a script. -/
def scriptFacts (root : Tree) : ModuleFacts :=
  let c := statements root
  if c.esm then ⟨.esm, c.imports, .known c.exports.eraseDups⟩
  else ⟨if c.cjs then .cjs else .script, c.imports, .unknown⟩

end BundleReach.Facts
