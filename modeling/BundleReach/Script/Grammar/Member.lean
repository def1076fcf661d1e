import BundleReach.Script.Grammar.Callable

/-!
# Members

The definitions of arguments, decorators, the members of classes and objects, and parameters.
-/

namespace BundleReach.Script

open Rule

/-- The words in front of a member that say whether it belongs to the class itself. -/
def staticWords : Rule := optional (choice ["static", token .staticGetLine])

/-- The mark of an accessor or a generator. -/
def accessorMark : Rule := optional (choice ["get", "set", "*"])

/-- A decorator, or the object of one: a name with dots in it. -/
def decoratorName : Rule := choice [identifier, part .decoratorMember]

/-- The modifiers of a member of a typed class. -/
def memberModifiers : List Rule := [
  optional (node .accessibilityModifier), optional "static",
  optional (node .overrideModifier), optional "readonly"]

/-- A method of a typed class or object, up to its parameters. -/
def typedMethod : List Rule :=
  memberModifiers ++ [optional "async", accessorMark, field .name (part .propertyName),
    optional "?", part .callSignature]

/-- The ways to name a property or a member. -/
def propertyNames : Rule := choice [
  renamed .propertyIdentifier (choice [identifier, part .reservedName]),
  token .privateName, node .string, token .number, node .computedPropertyName]

/-- The body of a class of plain scripts. -/
def plainClassBody : Rule :=
  seq ["\x7b", many (choice [
    seq [field .member (node .methodDefinition), optional ";"],
    seq [field .member (node .fieldDefinition), choice [token .omittedSemicolon, ";"]],
    field .member (node .classStaticBlock),
    ";"]), "\x7d"]

/-- The body of a class of typed scripts. -/
def typedClassBody : Rule :=
  seq ["\x7b", many (choice [
    seq [decorators, node .methodDefinition, optional semicolon],
    seq [node .methodSignature, choice [token .omittedBody, ","]],
    node .classStaticBlock,
    seq [choice [node .abstractMethodSignature, node .indexSignature, node .methodSignature,
      node .publicFieldDefinition], choice [semicolon, ","]],
    ";"]), "\x7d"]

/-- The words that are names where nothing else is meant. -/
def reservedNames (d : Dialect) : List Rule :=
  d.choose ["get", "set", "async", "await", "static", "export", "let"] [
    "declare", "namespace", "type", "public", "private", "protected", "override", "readonly",
    "module", "any", "number", "boolean", "string", "symbol", "export", "object", "new",
    "readonly", "get", "set", "async", "static", "export", "let"]

/-- Arguments, decorators, members and parameters. -/
def memberDefinitions (d : Dialect) : List Definition := [
  .node .arguments <|
    seq ["(", commas (optional (choice [part .expression, node .spreadElement])), ")"],
  .node .decorator <| seq ["@", choice ([decoratorName, part .decoratorCall] ++
    d.choose [] [part .decoratorGroup])],
  .part .decoratorMember <| ranked .member (seq [field .object decoratorName, ".",
    field .property (renamed .propertyIdentifier identifier)]),
  .part .decoratorCall <| ranked .call (seq ([field .function decoratorName] ++
    d.choose [] [optional (field .typeArguments (node .typeArguments))] ++
    [field .arguments (node .arguments)])),
  .node .classBody <| d.choose plainClassBody typedClassBody] ++
  d.restrict .plain [
  .node .fieldDefinition <| seq [decorators, staticWords,
    field .property (part .propertyName), optional (part .initializer)],
  .token .staticGetLine] ++ [
  .node .formalParameters <|
    seq ["(", optional (seq [commas1 (part .parameter), optional ","]), ")"],
  .node .classStaticBlock <| seq ["static", optional (token .omittedSemicolon),
    field .body (node .statementBlock)],
  .part .pattern <| weighed (-1) (choice [part .leftHandSide, node .restPattern]),
  .node .restPattern <| rightward (seq ["...", part .leftHandSide]),
  .node .methodDefinition <| d.choose
    (seq [decorators, staticWords, optional "async", accessorMark,
      field .name (part .propertyName), parameterList, field .body (node .statementBlock)])
    (leftward (seq (typedMethod ++ [field .body (node .statementBlock)]))),
  .node .pair <|
    seq [field .key (part .propertyName), ":", field .value (part .expression)],
  .node .pairPattern <| seq [field .key (part .propertyName), ":",
    field .value (choice [part .pattern, node .assignmentPattern])],
  .part .propertyName <| d.choose (unreserved propertyNames) propertyNames,
  .node .computedPropertyName <| seq ["[", part .expression, "]"],
  .inlined .reservedName <| choice (reservedNames d),
  .inlined .semicolon <| choice [token .omittedSemicolon, ";"]]

end BundleReach.Script
