import BundleReach.Script.Grammar.Rule

/-!
# Statements

The definitions of the statements of a script, from blocks to the handlers of exceptions.
-/

namespace BundleReach.Script

open Rule

/-- What a declarator, a loop or a handler binds: a name, or a pattern of names. -/
def bindingTarget : Rule := choice [identifier, part .destructuring]

/-- The words that declare a resource. -/
def usingWords : Rule := choice ["using", seq ["await", "using"]]

/-- The binding of a loop over the members of a value, after the words that declare it. -/
def loopBinding (words : Rule) : Rule :=
  seq [field .kind words, field .left bindingTarget, optional (token .omittedSemicolon)]

/-- A label in the place where a jump mentions it. -/
def jumpLabel : Rule := field .label (optional (renamed .statementIdentifier identifier))

/-- Declarations of variables after the words that introduce them. -/
def declarators (words : Rule) : Rule :=
  seq [words, commas1 (node .variableDeclarator), semicolon]

/-- A condition, or a value to choose by, in its parentheses. -/
def parenthesized (r : Role) : Rule := field r (node .parenthesizedExpression)

/-- The statement that another one governs. -/
def governed : Rule := field .body (part .statement)

/-- Simple and compound statements. -/
def statementDefinitions (d : Dialect) : List Definition := [
  .part .statement <| choice [
    node .exportStatement, node .importStatement, node .debuggerStatement,
    node .expressionStatement, part .declaration, node .statementBlock, node .ifStatement,
    node .switchStatement, node .forStatement, node .forInStatement, node .whileStatement,
    node .doStatement, node .tryStatement, node .withStatement, node .breakStatement,
    node .continueStatement, node .returnStatement, node .throwStatement, node .emptyStatement,
    node .labeledStatement],
  .node .expressionStatement <| seq [part .expressions, semicolon],
  .node .variableDeclaration <| declarators "var",
  .node .lexicalDeclaration <| declarators (field .kind (choice ["let", "const"]))] ++
  d.restrict .plain [.node .usingDeclaration <| declarators (field .kind usingWords)] ++ [
  .node .variableDeclarator <| d.choose
    (seq [field .name bindingTarget, optional (part .initializer)])
    (choice [
      seq [field .name bindingTarget, field .type (optional (node .annotatedType)),
        optional (part .initializer)],
      ranked .declare (seq [field .name identifier, "!", field .type (node .annotatedType)])]),
  .node .statementBlock <| rightward
    (seq ["\x7b", many (part .statement), "\x7d", optional (token .omittedSemicolon)]),
  .node .elseClause <| seq ["else", part .statement],
  .node .ifStatement <| rightward (seq ["if", parenthesized .condition,
    field .consequence (part .statement), optional (field .alternative (node .elseClause))]),
  .node .switchStatement <|
    seq ["switch", parenthesized .value, field .body (node .switchBody)],
  .node .forStatement <| seq ["for", "(",
    choice [
      field .initializer (choice [node .lexicalDeclaration, node .variableDeclaration]),
      seq [field .initializer (part .expressions), ";"],
      field .initializer (node .emptyStatement)],
    field .condition (choice [seq [part .expressions, ";"], node .emptyStatement]),
    field .increment (optional (part .expressions)), ")", governed],
  .node .forInStatement <| seq ["for", optional "await", part .forHeader, governed],
  .part .forHeader <| seq ["(",
    choice ([
      field .left (choice [part .leftHandSide, node .parenthesizedExpression]),
      seq [field .kind "var", field .left bindingTarget, optional (part .initializer)],
      loopBinding (choice ["let", "const"])] ++ d.choose [loopBinding usingWords] []),
    field .operator (choice ["in", "of"]),
    field .right (part .expressions), ")"],
  .node .whileStatement <| seq ["while", parenthesized .condition, governed],
  .node .doStatement <| rightward
    (seq ["do", governed, "while", parenthesized .condition, optional semicolon]),
  .node .tryStatement <| seq ["try", field .body (node .statementBlock),
    optional (field .handler (node .catchClause)),
    optional (field .finalizer (node .finallyClause))],
  .node .withStatement <| seq ["with", parenthesized .object, governed],
  .node .breakStatement <| seq ["break", jumpLabel, semicolon],
  .node .continueStatement <| seq ["continue", jumpLabel, semicolon],
  .node .debuggerStatement <| seq ["debugger", semicolon],
  .node .returnStatement <| seq ["return", optional (part .expressions), semicolon],
  .node .throwStatement <| seq ["throw", part .expressions, semicolon],
  .node .emptyStatement ";",
  .node .labeledStatement <| weighed (-1) (seq [
    field .label (renamed .statementIdentifier (choice [identifier, part .reservedName])),
    ":", governed]),
  .node .switchBody <|
    seq ["\x7b", many (choice [node .switchCase, node .switchDefault]), "\x7d"],
  .node .switchCase <| seq ["case", field .value (part .expressions), ":",
    field .body (many (part .statement))],
  .node .switchDefault <| seq ["default", ":", field .body (many (part .statement))],
  .node .catchClause <| seq ["catch",
    optional (seq ([word "(", field .parameter bindingTarget] ++
      d.choose [] [optional (field .type (node .annotatedType))] ++ [word ")"])),
    field .body (node .statementBlock)],
  .node .finallyClause <| seq ["finally", field .body (node .statementBlock)]]

end BundleReach.Script
