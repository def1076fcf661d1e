import BundleReach.Script.Grammar.Rule

/-!
# Whole scripts, imports and exports

The definitions of a script as a whole and of the statements that link it to other modules.
-/

namespace BundleReach.Script

open Rule

/-- What an export statement offers by name, before the semicolon. -/
def exportedNames : Rule :=
  choice [
    seq ["*", part .fromClause],
    seq [node .namespaceExport, part .fromClause],
    seq [node .exportClause, part .fromClause],
    node .exportClause]

/-- An export of names, or of a declaration or a default value. -/
def commonExports : List Rule := [
  seq ["export", exportedNames, semicolon],
  seq [many (field .decorator (node .decorator)), "export", choice [
    field .declaration (part .declaration),
    seq ["default", choice [
      field .declaration (part .declaration),
      seq [field .value (part .expression), semicolon]]]]]]

/-- The exports that only typed scripts know. -/
def typedExports : List Rule := [
  seq ["export", "type", node .exportClause, optional (part .fromClause), semicolon],
  seq ["export", "=", part .expression, semicolon],
  seq ["export", "as", "namespace", identifier, semicolon]]

/-- An entry of an export clause. -/
def exportEntry : Rule :=
  seq [field .name (part .exportName), optional (seq ["as", field .alias (part .exportName)])]

/-- The words that mark an import or an entry as concerning types only. -/
def typeMark : Rule := optional (choice ["type", "typeof"])

/-- The word `type` in the place of a name. -/
def typeAsName : Rule := renamed .identifier "type"

/-- What an import clause binds beside a default: a namespace, or names. -/
def importedBindings : Rule := choice [node .namespaceImport, node .namedImports]

/-- An import clause whose default binding has the given form. -/
def importClause (defaultName : Rule) : Rule :=
  choice [
    node .namespaceImport,
    node .namedImports,
    seq [defaultName, optional (seq [",", importedBindings])]]

/-- Scripts as wholes, and the statements that link them. -/
def linkageDefinitions (d : Dialect) : List Definition := [
  .node .program <| seq [optional (token .hashBang), many (part .statement)],
  .token .hashBang,
  .node .exportStatement <| choice (commonExports ++ d.choose [] typedExports),
  .node .namespaceExport <| seq ["*", "as", part .exportName],
  .node .exportClause <|
    seq ["\x7b", commas (node .exportSpecifier), optional ",", "\x7d"],
  .node .exportSpecifier <| d.choose exportEntry (seq [typeMark, exportEntry]),
  .part .exportName <|
    choice ([identifier, node .string] ++ d.choose [word "default"] []),
  .part .declaration <| choice ([
    node .functionDeclaration, node .generatorFunctionDeclaration, node .classDeclaration,
    node .lexicalDeclaration, node .variableDeclaration] ++ d.choose [node .usingDeclaration] [
      node .functionSignature, node .abstractClassDeclaration, node .moduleDeclaration,
      ranked .declare (node .internalModule), node .typeAliasDeclaration,
      node .enumDeclaration, node .interfaceDeclaration, node .importAlias,
      node .ambientDeclaration]),
  .node .importValue "import",
  .node .importStatement <| d.choose
    (seq ["import",
      choice [seq [node .importClause, part .fromClause], field .source (node .string)],
      optional (node .importAttribute), semicolon])
    (seq ["import", typeMark,
      choice [
        seq [node .importClause, part .fromClause],
        node .importRequireClause,
        field .source (node .string)],
      optional (node .importAttribute), semicolon]),
  .node .importClause <| importClause (d.choose identifier (part .importName)),
  .part .fromClause <| seq ["from", field .source (node .string)],
  .node .namespaceImport <| seq ["*", "as", identifier],
  .node .namedImports <|
    seq ["\x7b", commas (node .importSpecifier), optional ",", "\x7d"],
  .node .importSpecifier <| d.choose
    (choice [
      field .name identifier,
      seq [field .name (part .exportName), "as", field .alias identifier]])
    (seq [typeMark, choice [
      field .name (part .importName),
      seq [field .name (choice [part .exportName, typeAsName]), "as",
        field .alias (part .importName)]]]),
  .node .importAttribute <|
    seq [d.choose "with" (choice ["with", "assert"]), node .object]]

end BundleReach.Script
