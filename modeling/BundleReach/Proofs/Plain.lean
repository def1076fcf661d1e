import BundleReach.Environment
import BundleReach.Graph.Build
import BundleReach.Proofs.Facts.Statements

/-!
# Plain scripts

The plainest scripts have one statement on each line, which refers to one module or offers one name.
What such a script states can be told without reading it.  A parser that knows some of them is all
that an audit needs whose output is made of these.

* `PlainScript.tree` — the tree of a plain script.
* `PlainScript.scriptFacts_tree` — a plain script states what its statements say, line by line.
* `PlainScript.parser` — the parser that knows some plain scripts.
* `plainOutput`, `plainBuilder`, `plainEnvironment` — an application of plain scripts with the
  folders that bundles are shipped in, and what its graph is built with and its audit is run with.
-/

namespace BundleReach

open Facts Script
open Text (Bytes)

/-- A statement that stands on a line of its own. -/
inductive PlainStatement where
  /-- `import "./a.js";` -/
  | load (specifier : String)
  /-- `import { a } from "./a.js";` -/
  | take (name specifier : String)
  /-- `export * from "./a.js";` -/
  | pass (specifier : String)
  /-- `import("./a.js");` -/
  | wait (specifier : String)
  /-- `export const a = 1;` -/
  | offer (name : String)
  deriving DecidableEq, Repr

namespace PlainStatement

/-- A text between quotes. -/
def quoted (s : String) : String := "\"" ++ s ++ "\""

def text : PlainStatement → String
  | load s => "import " ++ quoted s ++ ";"
  | take n s => "import \x7b " ++ n ++ " \x7d from " ++ quoted s ++ ";"
  | pass s => "export * from " ++ quoted s ++ ";"
  | wait s => "import(" ++ quoted s ++ ");"
  | offer n => "export const " ++ n ++ " = 1;"

/-! ## Trees -/

/-- A keyword or a punctuation mark. -/
def wordAt (line : Nat) (w : String) : Tree := .node ⟨.word, none, w, line⟩ []

/-- The name of what is imported or offered. -/
def nameAt (line : Nat) (n : String) : Tree := .node ⟨.identifier, some .name, n, line⟩ []

/-- The string that names a module. -/
def stringAt (line : Nat) (role : Option Role) (s : String) : Tree :=
  .node ⟨.string, role, quoted s, line⟩
    [wordAt line "\"", .node ⟨.stringFragment, none, s, line⟩ [], wordAt line "\""]

/-- The tree of a statement on a line. -/
def treeAt (line : Nat) (st : PlainStatement) : Tree :=
  match st with
  | load s => .node ⟨.importStatement, none, st.text, line⟩
      [wordAt line "import", stringAt line (some .source) s, wordAt line ";"]
  | take n s => .node ⟨.importStatement, none, st.text, line⟩ [
      wordAt line "import",
      .node ⟨.importClause, none, "\x7b " ++ n ++ " \x7d", line⟩ [
        .node ⟨.namedImports, none, "\x7b " ++ n ++ " \x7d", line⟩ [
          wordAt line "\x7b", .node ⟨.importSpecifier, none, n, line⟩ [nameAt line n],
          wordAt line "\x7d"]],
      wordAt line "from", stringAt line (some .source) s, wordAt line ";"]
  | pass s => .node ⟨.exportStatement, none, st.text, line⟩ [
      wordAt line "export", wordAt line "*", wordAt line "from",
      stringAt line (some .source) s, wordAt line ";"]
  | wait s => .node ⟨.expressionStatement, none, st.text, line⟩ [
      .node ⟨.callExpression, none, "import(" ++ quoted s ++ ")", line⟩ [
        .node ⟨.importValue, some .function, "import", line⟩ [wordAt line "import"],
        .node ⟨.arguments, some .arguments, "(" ++ quoted s ++ ")", line⟩
          [wordAt line "(", stringAt line none s, wordAt line ")"]],
      wordAt line ";"]
  | offer n => .node ⟨.exportStatement, none, st.text, line⟩ [
      wordAt line "export",
      .node ⟨.lexicalDeclaration, some .declaration, "const " ++ n ++ " = 1;", line⟩ [
        .node ⟨.word, some .kind, "const", line⟩ [],
        .node ⟨.variableDeclarator, none, n ++ " = 1", line⟩
          [nameAt line n, wordAt line "=", .node ⟨.number, some .value, "1", line⟩ []],
        wordAt line ";"]]

/-! ## What statements say -/

/-- The module that a statement on a line refers to. -/
def referenceAt (line : Nat) : PlainStatement → Option ImportRef
  | load s => some ⟨s, .static, [], line⟩
  | take n s => some ⟨s, .static, [unquoted n], line⟩
  | pass s => some ⟨s, .reexport, ["*"], line⟩
  | wait s => some ⟨s, .dynamic, ["*"], line⟩
  | offer _ => none

/-- The name that a statement offers. -/
def offered? : PlainStatement → Option String
  | offer n => some n
  | _ => none

/-- Is the statement an import or export statement?  A dynamic import is a call. -/
def isLink : PlainStatement → Bool
  | wait _ => false
  | _ => true

theorem inner_quoted (s : String) : Facts.inner (quoted s) = s := by
  simp [Facts.inner, quoted, String.toList_append]

/-- What the nodes of a statement refer to, quotes aside. -/
theorem imports_treeAt (line : Nat) (st : PlainStatement) :
    ((st.treeAt line).preorder.flatMap fun n => (contribution n).imports) =
      (st.referenceAt line).toList := by
  cases st with
  | load s =>
    show [(⟨Facts.inner (quoted s), .static, [], line⟩ : ImportRef)] = _
    rw [inner_quoted]
    rfl
  | take n s =>
    show [(⟨Facts.inner (quoted s), .static, [unquoted n], line⟩ : ImportRef)] = _
    rw [inner_quoted]
    rfl
  | pass s =>
    show [(⟨Facts.inner (quoted s), .reexport, ["*"], line⟩ : ImportRef)] = _
    rw [inner_quoted]
    rfl
  | wait s =>
    show [(⟨Facts.inner (quoted s), .dynamic, ["*"], line⟩ : ImportRef)] = _
    rw [inner_quoted]
    rfl
  | offer n => rfl

theorem exports_treeAt (line : Nat) (st : PlainStatement) :
    ((st.treeAt line).preorder.flatMap fun n => (contribution n).exports) = st.offered?.toList := by
  cases st <;> rfl

theorem any_isLink_treeAt (line : Nat) (st : PlainStatement) :
    (st.treeAt line).preorder.any Facts.isLink = st.isLink := by
  cases st <;> rfl

theorem not_cjs_treeAt (line : Nat) (st : PlainStatement) :
    ((st.treeAt line).preorder.any fun n => (contribution n).cjs) = false := by
  cases st <;> rfl

end PlainStatement

/-- A script with one statement on each line. -/
abbrev PlainScript := List PlainStatement

namespace PlainScript

def text (s : PlainScript) : String := String.join (s.map fun st => st.text ++ "\n")

def bytes (s : PlainScript) : Bytes := s.text.toUTF8.toList

def tree (s : PlainScript) : Tree :=
  .node ⟨.program, none, s.text, 1⟩ ((s.zipIdx 1).map fun e => e.1.treeAt e.2)

/-- The modules that a script refers to. -/
def references (s : PlainScript) : List ImportRef :=
  (s.zipIdx 1).flatMap fun e => (e.1.referenceAt e.2).toList

/-- The names that a script offers. -/
def offered (s : PlainScript) : List String := s.flatMap fun st => st.offered?.toList

/-- The nodes of a script are its root and those of its statements, line by line. -/
theorem preorder_tree (s : PlainScript) :
    s.tree.preorder = s.tree :: (s.zipIdx 1).flatMap fun e => (e.1.treeAt e.2).preorder := by
  rw [tree, Tree.preorder_node, Tree.preorderAll_eq_flatMap, List.flatMap_map]

theorem imports_statements_tree (s : PlainScript) : (statements s.tree).imports = s.references := by
  rw [statements, foldr_contributions, preorder_tree]
  show (List.flatMap _ _).flatMap (fun n => (contribution n).imports) = _
  simp only [List.flatMap_assoc, PlainStatement.imports_treeAt]
  rfl

theorem exports_statements_tree (s : PlainScript) : (statements s.tree).exports = s.offered := by
  rw [statements, foldr_contributions, preorder_tree]
  show (List.flatMap _ _).flatMap (fun n => (contribution n).exports) = _
  simp only [List.flatMap_assoc, PlainStatement.exports_treeAt]
  rw [← List.flatMap_map Prod.fst fun st : PlainStatement => st.offered?.toList,
    List.zipIdx_map_fst, offered]

theorem esm_statements_tree (s : PlainScript) :
    (statements s.tree).esm = s.any PlainStatement.isLink := by
  rw [esm_statements, preorder_tree]
  show (List.flatMap _ _).any Facts.isLink = _
  rw [List.any_flatMap]
  simp only [PlainStatement.any_isLink_treeAt]
  have hfst : ((s.zipIdx 1).map Prod.fst).any PlainStatement.isLink =
      (s.zipIdx 1).any fun e => e.1.isLink := List.any_map
  rw [← hfst, List.zipIdx_map_fst]

theorem cjs_statements_tree (s : PlainScript) : (statements s.tree).cjs = false := by
  rw [statements, foldr_contributions, preorder_tree]
  show (List.flatMap _ _).any (fun n => (contribution n).cjs) = _
  rw [List.any_flatMap, List.any_eq_false]
  intro e _
  rw [PlainStatement.not_cjs_treeAt]
  exact Bool.false_ne_true

/-- A plain script states what its statements say, line by line. -/
theorem scriptFacts_tree (s : PlainScript) :
    scriptFacts s.tree = if s.any PlainStatement.isLink then
        ⟨.esm, s.references, .known s.offered.eraseDups⟩
      else ⟨.script, s.references, .unknown⟩ := by
  rw [scriptFacts_eq, imports_statements_tree, exports_statements_tree, esm_statements_tree,
    cjs_statements_tree]
  rfl

/-! ## Outputs of plain scripts -/

/-- The parser that knows some scripts. -/
def parser (scripts : List PlainScript) : Parser := fun _ bytes =>
  match scripts.find? fun s => s.bytes == bytes with
  | some s => .ok s.tree
  | none => .error 1

/-- The files of a folder that hold scripts. -/
def files (folder : List String) (scripts : List (String × PlainScript)) :
    Table (List String) Entry :=
  scripts.map fun e => (folder ++ [e.1], .file e.2.bytes)

end PlainScript

/-- The manifest of an application that begins with `app.js`. -/
def plainManifest : String := "\x7b\"name\":\"app\",\"ember-addon\":\x7b\"type\":\"app\"\x7d\x7d"

/-- An application of some scripts, and the folders that bundles of it are shipped in. -/
def plainOutput (scripts : List (String × PlainScript))
    (shipped : List (String × List (String × PlainScript))) : FileTree where
  entries :=
    (["app"], .folder) :: (["app", "package.json"], .file plainManifest.toUTF8.toList) ::
      PlainScript.files ["app"] scripts ++ (["app", "dist"], .folder) ::
        shipped.flatMap fun e =>
          (["app", "dist", e.1], .folder) :: PlainScript.files ["app", "dist", e.1] e.2

/-- The place of a script of the application. -/
def appFile (name : String) : Path := ⟨.root, ["app", name]⟩

/-- What the graph of an application of some scripts is built with. -/
def plainBuilder (scripts : List (String × PlainScript)) : GraphBuilder where
  tree := plainOutput scripts []
  app := { name := "app", root := ⟨.root, ["app"]⟩, kind := .app }
  addons := []
  settings := .initial 4
  parse := PlainScript.parser (scripts.map Prod.snd)

/-- What an audit is run with that reads some scripts and no settings. -/
def plainEnvironment (scripts : List (String × PlainScript)) : Environment where
  parse := PlainScript.parser (scripts.map Prod.snd)
  loadToml _ := .ok []
  userFile := ⟨.root, []⟩
  workers := 4

end BundleReach
