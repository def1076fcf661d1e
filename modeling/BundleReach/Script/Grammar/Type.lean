import BundleReach.Script.Grammar.Typed

/-!
# Types

The definitions of the types of typed scripts.
-/

namespace BundleReach.Script

open Rule

/-- A property that is looked up in a value within a type. -/
def queriedProperty : Rule :=
  field .property (choice [token .privateName, renamed .propertyIdentifier identifier])

/-- The values within a type whose members are looked up. -/
def queriedObject : Rule := field .object (choice [
  identifier, token (.word "this"), part .queriedSubscript, part .queriedMember,
  part .queriedCall])

/-- The values within a type that are called or given types. -/
def queriedFunction : Rule := field .function (choice [
  node .importValue, identifier, part .queriedMember, part .queriedSubscript])

/-- The signs that a modifier of an index signature or a number in a type may have. -/
def signs : Rule := choice ["-", "+"]

/-- A name of a type, with or without dots in it. -/
def typeReference : Rule := choice [part .typeName, node .nestedTypeIdentifier]

/-- Parameters whose types and defaults are not generic. -/
def newSignature : List Rule := [optional "abstract", "new", genericParameters, parameterList]

/-- A mark between the members of an object type. -/
def memberMark : Rule := choice [",", semicolon]

/-- Types and what they are made of. -/
def typeDefinitions : List Definition := [
  .node .omittingType <| seq ["-?:", part .type],
  .node .addingType <| seq ["+?:", part .type],
  .node .optingType <| seq ["?:", part .type],
  .node .annotatedType <|
    seq [":", choice [part .type, part .annotatedMember, part .annotatedCall]],
  .part .annotatedMember <| seq [
    field .object (choice [node .importValue, part .annotatedMember, part .annotatedCall]), ".",
    queriedProperty],
  .part .annotatedCall <| seq [
    field .function (choice [node .importValue, part .annotatedMember]),
    field .arguments (node .arguments)],
  .node .asserts <|
    seq ["asserts", choice [node .typePredicate, identifier, token (.word "this")]],
  .node .assertedResult <| seq [":", node .asserts],
  .part .type <| choice [part .primaryType, node .functionType, node .readonlyType,
    node .constructorType, node .inferType,
    ranked (.number (-1)) (part .annotatedMember),
    ranked (.number (-1)) (part .annotatedCall)],
  .part .tupleParameter <| seq [
    field .name (choice [identifier, node .restPattern]), field .type (node .annotatedType)],
  .part .optionalTupleParameter <|
    seq [field .name identifier, "?", field .type (node .annotatedType)],
  .node .optionalType <| seq [part .type, "?"],
  .node .restType <| seq ["...", part .type],
  .part .tupleMember <| choice [part .tupleParameter, part .optionalTupleParameter,
    node .optionalType, node .restType, part .type],
  .node .constructorType <|
    leftward (seq (newSignature ++ [word "=>", field .type (part .type)])),
  .part .primaryType <| choice [
    node .parenthesizedType, node .predefinedType, part .typeName, node .nestedTypeIdentifier,
    node .genericType, node .objectType, node .arrayType, node .tupleType, node .flowMaybeType,
    node .typeQuery, node .indexTypeQuery, renamed .thisType (token (.word "this")),
    node .existentialType, node .literalType, node .lookupType, node .conditionalType,
    node .templateLiteralType, node .intersectionType, node .unionType, "const"],
  .node .templateType <|
    seq ["$\x7b", choice [part .primaryType, node .inferType], "\x7d"],
  .node .templateLiteralType <|
    seq ["\x60", many (choice [token .templatePiece, node .templateType]), "\x60"],
  .node .inferType <| rightward
    (seq ["infer", part .typeName, optional (seq ["extends", part .type])]),
  .node .conditionalType <| rightward (seq [
    field .left (part .type), "extends", field .right (part .type), "?",
    field .consequence (part .type), ":", field .alternative (part .type)]),
  .node .genericType <| ranked .call
    (seq [field .name typeReference, field .typeArguments (node .typeArguments)]),
  .node .typePredicate <| seq [
    field .name (choice [identifier, token (.word "this"),
      renamed .identifier (node .predefinedType)]),
    "is", field .type (part .type)],
  .node .predicateResult <| seq [":", node .typePredicate],
  .part .queriedMember <| seq [queriedObject, choice [".", "?."], queriedProperty],
  .part .queriedSubscript <| seq [queriedObject, optional "?.", "[",
    field .index (choice [node .predefinedType, node .string, token .number]), "]"],
  .part .queriedCall <| seq [queriedFunction, field .arguments (node .arguments)],
  .part .queriedInstantiation <|
    seq [queriedFunction, field .typeArguments (node .typeArguments)],
  .node .typeQuery <| rightward (seq ["typeof", choice [
    part .queriedSubscript, part .queriedMember, part .queriedCall, part .queriedInstantiation,
    identifier, token (.word "this")]]),
  .node .indexTypeQuery <| seq ["keyof", part .primaryType],
  .node .lookupType <| seq [part .primaryType, "[", part .type, "]"],
  .node .mappedTypeClause <| seq [field .name (part .typeName), "in",
    field .type (part .type), optional (seq ["as", field .alias (part .type)])],
  .node .literalType <| choice [part .signedNumber, token .number, node .string,
    token (.word "true"), token (.word "false"), token (.word "null"),
    token (.word "undefined")],
  .part .signedNumber <| leftAt (.number 1)
    (seq [field .operator signs, field .argument (token .number)]),
  .node .existentialType "*",
  .node .flowMaybeType <| rightward (seq ["?", part .primaryType]),
  .node .parenthesizedType <| seq ["(", part .type, ")"],
  .node .predefinedType <| choice ["any", "number", "boolean", "string", "symbol",
    seq ["unique", renamed .word "symbol"], "void", "unknown", "never", "object"],
  .node .typeArguments <| seq ["<", commas1 (part .type), optional ",", ">"],
  .node .objectType <| seq [choice ["\x7b", "\x7b|"], optional (seq [
    optional (choice [",", ";"]),
    separated1 memberMark (choice [node .exportStatement, node .propertySignature,
      node .callSignature, node .constructSignature, node .indexSignature,
      node .methodSignature]),
    optional memberMark]), choice ["\x7d", "|\x7d"]],
  .node .callSignature <| part .callSignature,
  .node .propertySignature <| seq (memberModifiers ++
    [field .name (part .propertyName), optional "?", annotatedAs]),
  .node .typeParameters <| seq ["<", commas1 (node .typeParameter), optional ",", ">"],
  .node .typeParameter <| seq [optional "const", field .name (part .typeName),
    field .constraint (optional (node .constraint)),
    field .value (optional (node .defaultType))],
  .node .defaultType <| seq ["=", part .type],
  .node .constraint <| seq [choice ["extends", ":"], part .type],
  .node .constructSignature <| seq (newSignature ++ [annotatedAs]),
  .node .indexSignature <| seq [
    optional (seq [field .sign (optional signs), "readonly"]), "[",
    choice [
      seq [field .name (choice [identifier, reservedAsName]), ":",
        field .indexType (part .type)],
      node .mappedTypeClause], "]",
    field .type (choice [node .annotatedType, node .omittingType, node .addingType,
      node .optingType])],
  .node .arrayType <| seq [part .primaryType, "[", "]"],
  .node .tupleType <| seq ["[", commas (part .tupleMember), optional ",", "]"],
  .node .readonlyType <| seq ["readonly", part .type],
  .node .unionType <| leftward (seq [optional (part .type), "|", part .type]),
  .node .intersectionType <| leftward (seq [optional (part .type), "&", part .type]),
  .node .functionType <| leftward (seq [genericParameters, parameterList, "=>",
    field .returnType (choice [part .type, node .asserts, node .typePredicate])]),
  .inlined .typeName <| renamed .typeIdentifier identifier]

end BundleReach.Script
