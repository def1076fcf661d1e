import BundleReach.Script.Grammar.Member

/-!
# What typed scripts declare

The definitions of the declarations, members and expressions that only typed scripts know, apart
from the types themselves.
-/

namespace BundleReach.Script

open Rule

/-- The type that a colon announces. -/
def annotatedAs : Rule := field .type (optional (node .annotatedType))

/-- The parameters of a generic construct. -/
def genericParameters : Rule := field .typeParameters (optional (node .typeParameters))

/-- The words in front of a field of a class that is only declared. -/
def declaredFieldWords : Rule := optional (choice [
  seq ["declare", optional (node .accessibilityModifier)],
  seq [node .accessibilityModifier, optional "declare"]])

/-- The words in front of a field of a class, in any order that is allowed. -/
def fieldWords : Rule := choice [
  seq [optional "static", optional (node .overrideModifier), optional "readonly"],
  seq [optional "abstract", optional "readonly"],
  seq [optional "readonly", optional "abstract"],
  optional "accessor"]

/-- The ways to name a namespace. -/
def dottedModule : Rule := choice [identifier, node .nestedIdentifier]

/-- Declarations, members and expressions of typed scripts. -/
def typedDefinitions : List Definition := [
  .node .publicFieldDefinition <| seq [decorators, declaredFieldWords, fieldWords,
    field .name (part .propertyName), optional (choice ["?", "!"]), annotatedAs,
    optional (part .initializer)],
  .part .importName <| choice [identifier, renamed .identifier "type"],
  .node .nonNullExpression <| leftAt .unary (seq [part .expression, "!"]),
  .node .methodSignature <| seq typedMethod,
  .node .abstractMethodSignature <| seq [optional (node .accessibilityModifier), "abstract",
    optional (node .overrideModifier), accessorMark, field .name (part .propertyName),
    optional "?", part .callSignature],
  .node .functionSignature <| seq [optional "async", "function", field .name identifier,
    part .callSignature, choice [semicolon, token .omittedBody]],
  .part .decoratorGroup <| seq ["(", choice [decoratorName, part .decoratorCall], ")"],
  .node .typeAssertion <| leftAt .unary (seq [node .typeArguments, part .expression]),
  .node .asExpression <|
    leftAt .binary (seq [part .expression, "as", choice ["const", part .type]]),
  .node .satisfiesExpression <|
    leftAt .binary (seq [part .expression, "satisfies", part .type]),
  .node .instantiationExpression <| ranked .instantiation
    (seq [part .expression, field .typeArguments (node .typeArguments)]),
  .node .importRequireClause <|
    seq [identifier, "=", "require", "(", field .source (node .string), ")"],
  .node .extendsClause <| seq ["extends", commas1 (part .heritageEntry)],
  .part .heritageEntry <| ranked .extension (seq [field .value (part .expression),
    field .typeArguments (optional (node .typeArguments))]),
  .node .implementsClause <| seq ["implements", commas1 (part .type)],
  .node .ambientDeclaration <| seq ["declare", choice [
    part .declaration,
    seq ["global", node .statementBlock],
    seq ["module", ".", renamed .propertyIdentifier identifier, ":", part .type, semicolon]]],
  .node .abstractClassDeclaration <| ranked .declare
    (seq ([decorators, "abstract"] ++ classTail .typed (part .typeName))),
  .node .moduleDeclaration <| seq ["module", part .moduleHead],
  .node .internalModule <| seq ["namespace", part .moduleHead],
  .part .moduleHead <| rightward (seq [
    field .name (choice [node .string, identifier, node .nestedIdentifier]),
    field .body (optional (node .statementBlock))]),
  .node .importAlias <| seq ["import", identifier, "=", dottedModule, semicolon],
  .node .nestedTypeIdentifier <| ranked .member
    (seq [field .module dottedModule, ".", field .name (part .typeName)]),
  .node .interfaceDeclaration <| ranked .declare (seq ["interface",
    field .name (part .typeName), genericParameters, optional (node .extendsTypeClause),
    field .body (renamed .interfaceBody (node .objectType))]),
  .node .extendsTypeClause <| seq ["extends", commas1 (field .type (choice [
    part .typeName, node .nestedTypeIdentifier, node .genericType]))],
  .node .enumDeclaration <| ranked .declare (seq [optional "const", "enum",
    field .name identifier, field .body (node .enumBody)]),
  .node .enumBody <| seq ["\x7b", optional (seq [
    commas1 (choice [field .name (part .propertyName), node .enumAssignment]),
    optional ","]), "\x7d"],
  .node .enumAssignment <| seq [field .name (part .propertyName), part .initializer],
  .node .typeAliasDeclaration <| ranked .declare (seq ["type", field .name (part .typeName),
    genericParameters, "=", field .value (part .type), semicolon]),
  .node .accessibilityModifier <| choice ["public", "private", "protected"],
  .node .overrideModifier "override",
  .node .requiredParameter <|
    seq [part .parameterName, annotatedAs, optional (part .initializer)],
  .node .optionalParameter <|
    seq [part .parameterName, "?", annotatedAs, optional (part .initializer)],
  .part .parameterName <| seq [decorators, optional (node .accessibilityModifier),
    optional (node .overrideModifier), optional "readonly",
    field .pattern (choice [part .pattern, token (.word "this")])]]

end BundleReach.Script
