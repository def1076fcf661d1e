import BundleReach.Script.Grammar.Rule

/-!
# Expressions

The definitions of expressions as such, of objects and arrays, and of the patterns that take
values apart.
-/

namespace BundleReach.Script

open Rule

/-- A reserved word that stands for itself as a name. -/
def reservedAsName : Rule := renamed .identifier (part .reservedName)

/-- A name that is short for a property and its value. -/
def shorthand (k : Kind) : Rule := renamed k (choice [identifier, part .reservedName])

/-- Entries between braces, where commas may be left without an entry. -/
def braced (entry : Rule) : Rule := seq ["\x7b", commas (optional entry), "\x7d"]

/-- Entries between brackets, where commas may be left without an entry. -/
def bracketed (entry : Rule) : Rule := seq ["[", commas (optional entry), "]"]

/-- Expressions of all kinds but the simplest, in both dialects. -/
def compoundExpressions : List Rule := [
  node .assignmentExpression, node .augmentedAssignmentExpression, node .awaitExpression,
  node .unaryExpression, node .binaryExpression, node .ternaryExpression,
  node .updateExpression, node .newExpression, node .yieldExpression]

/-- Expressions, objects, arrays and patterns. -/
def expressionDefinitions (d : Dialect) : List Definition := [
  .node .parenthesizedExpression <| d.choose
    (seq ["(", part .expressions, ")"])
    (seq ["(", choice [
      seq [part .expression, field .type (optional (node .annotatedType))],
      node .sequenceExpression], ")"]),
  .inlined .expressions <| choice [part .expression, node .sequenceExpression],
  .part .expression <| d.choose
    (choice ([part .primaryExpression, part .element] ++ compoundExpressions))
    (choice ([node .asExpression, node .satisfiesExpression, node .instantiationExpression,
      node .internalModule, node .typeAssertion, part .primaryExpression] ++
      compoundExpressions)),
  .part .primaryExpression <| choice ([
    node .subscriptExpression, node .memberExpression, node .parenthesizedExpression,
    part .name, reservedAsName, token (.word "this"), token (.word "super"), token .number,
    node .string, node .templateString, node .regex, token (.word "true"),
    token (.word "false"), token (.word "null"), node .object, node .array,
    node .functionExpression, node .arrowFunction, node .generatorFunction,
    node .classExpression, node .metaProperty, node .callExpression] ++
    d.choose [] [node .nonNullExpression]),
  .node .yieldExpression <| rightward
    (seq ["yield", choice [seq ["*", part .expression], optional (part .expression)]]),
  .node .object <| ranked .object (braced (choice [
    node .pair, node .spreadElement, node .methodDefinition,
    shorthand .shorthandPropertyIdentifier])),
  .node .objectPattern <| ranked .object (braced (choice [
    node .pairPattern, node .restPattern, node .objectAssignmentPattern,
    shorthand .shorthandPropertyIdentifierPattern])),
  .node .assignmentPattern <|
    seq [field .left (part .pattern), "=", field .right (part .expression)],
  .node .objectAssignmentPattern <| seq [
    field .left (choice [
      renamed .shorthandPropertyIdentifierPattern (choice [part .reservedName, identifier]),
      part .destructuring]),
    "=", field .right (part .expression)],
  .node .array <| bracketed (choice [part .expression, node .spreadElement]),
  .node .arrayPattern <| bracketed (choice [part .pattern, node .assignmentPattern])]

end BundleReach.Script
