import BundleReach.Script.Grammar.Expression

/-!
# Operations

The definitions of expressions that are made of other expressions: calls, members, assignments and
operators.
-/

namespace BundleReach.Script

open Rule

/-- The mark of a member that may be missing. -/
def chainMark (d : Dialect) : Rule := d.choose (token (.word "?.")) (node .optionalChain)

/-- The name of a property after a dot. -/
def propertyWord : Rule := renamed .propertyIdentifier identifier

/-- The arguments of types in front of the arguments of a call. -/
def appliedTypes : Rule := field .typeArguments (optional (node .typeArguments))

/-- Operators with two operands, with the level of each; all but one group to the left. -/
def binaryOperators : List (String × Level) := [
  ("&&", .logicalAnd), ("||", .logicalOr), (">>", .shift), (">>>", .shift), ("<<", .shift),
  ("&", .bitAnd), ("^", .bitXor), ("|", .bitOr), ("+", .plus), ("-", .plus), ("*", .times),
  ("/", .times), ("%", .times), ("**", .power), ("<", .relation), ("<=", .relation),
  ("==", .equality), ("===", .equality), ("!=", .equality), ("!==", .equality),
  (">=", .relation), (">", .relation), ("??", .conditional), ("instanceof", .relation),
  ("in", .relation)]

/-- An operation with the given operator.  A private name may be looked for in an object. -/
def binaryOperation (operator : String) (level : Level) : Rule :=
  prec (some level) (some (if operator = "**" then .right else .left)) (seq [
    field .left (if operator = "in" then choice [part .expression, token .privateName]
      else part .expression),
    field .operator operator,
    field .right (part .expression)])

/-- The operators that assign what they compute. -/
def updatingOperators : List Rule := [
  "+=", "-=", "*=", "/=", "%=", "^=", "&=", "|=", ">>=", ">>>=", "<<=", "**=", "&&=", "||=",
  "??="]

/-- A call of a value, of a template, and of a value that may be missing. -/
def callForms (d : Dialect) : Rule :=
  let types := d.choose [] [appliedTypes]
  let arguments := [field .arguments (node .arguments)]
  choice [
    ranked .call (seq ([field .function (choice [part .expression, node .importValue])] ++
      types ++ arguments)),
    ranked .templateCall (seq [
      field .function (choice [part .primaryExpression, node .newExpression]),
      field .arguments (node .templateString)]),
    ranked .member (seq ([field .function (part .primaryExpression),
      d.choose (field .optionalChain (token (.word "?."))) "?."] ++ types ++ arguments))]

/-- Calls, members, assignments and operators. -/
def operationDefinitions (d : Dialect) : List Definition := [
  .node .callExpression <| callForms d,
  .node .newExpression <| rightAt .new <| d.choose
    (seq ["new",
      field .constructor (choice [part .primaryExpression, node .newExpression]),
      field .arguments (optional (weighed 1 (node .arguments)))])
    (seq ["new", field .constructor (part .primaryExpression), appliedTypes,
      field .arguments (optional (node .arguments))]),
  .node .awaitExpression <| ranked .unaryWord (seq ["await", part .expression]),
  .node .memberExpression <| ranked .member (seq [
    field .object (choice [part .expression, part .primaryExpression, node .importValue]),
    choice [".", field .optionalChain (chainMark d)],
    field .property <|
      choice [token .privateName, d.choose (unreserved propertyWord) propertyWord]]),
  .node .subscriptExpression <| rightAt .member (seq [
    field .object (choice [part .expression, part .primaryExpression]),
    optional (field .optionalChain (chainMark d)),
    "[", field .index (part .expressions), "]"]),
  .inlined .leftHandSide <| choice ([node .memberExpression, node .subscriptExpression,
    part .name, reservedAsName, part .destructuring] ++ d.choose [] [node .nonNullExpression]),
  .node .assignmentExpression <| rightAt .assign (seq (
    d.choose [] [optional "using"] ++ [
    field .left (choice [node .parenthesizedExpression, part .leftHandSide]), "=",
    field .right (part .expression)])),
  .part .updatedLeftHandSide <| choice ([node .memberExpression, node .subscriptExpression,
    reservedAsName, identifier, node .parenthesizedExpression] ++
    d.choose [] [node .nonNullExpression]),
  .node .augmentedAssignmentExpression <| rightAt .assign (seq [
    field .left (part .updatedLeftHandSide), field .operator (choice updatingOperators),
    field .right (part .expression)]),
  .part .initializer <| seq ["=", field .value (part .expression)],
  .part .destructuring <| choice [node .objectPattern, node .arrayPattern],
  .node .spreadElement <| seq ["...", part .expression],
  .node .ternaryExpression <| rightAt .conditional (seq [
    field .condition (part .expression), token .questionMark,
    field .consequence (part .expression), ":", field .alternative (part .expression)]),
  .node .binaryExpression <| choice (binaryOperators.map fun o => binaryOperation o.1 o.2),
  .node .unaryExpression <| leftAt .unaryWord (seq [
    field .operator (choice ["!", "~", "-", "+", "typeof", "void", "delete"]),
    field .argument (part .expression)]),
  .node .updateExpression <| leftward (choice [
    seq [field .argument (part .expression), field .operator (choice ["++", "--"])],
    seq [field .operator (choice ["++", "--"]), field .argument (part .expression)]]),
  .node .sequenceExpression <| rightward (commas1 (part .expression))]

end BundleReach.Script
