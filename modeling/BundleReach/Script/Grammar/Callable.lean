import BundleReach.Script.Grammar.Expression

/-!
# Classes and functions

The definitions of classes and functions, as declarations and as expressions, without the members
of a class.
-/

namespace BundleReach.Script

open Rule

/-- The decorators in front of a class or a member. -/
def decorators : Rule := many (field .decorator (node .decorator))

/-- A class from the word `class` on, with its name in the given form. -/
def classTail (d : Dialect) (name : Rule) : List Rule :=
  [word "class", field .name name] ++
    d.choose [] [field .typeParameters (optional (node .typeParameters))] ++
    [optional (node .classHeritage), field .body (node .classBody)]

/-- A function whose words and name are given, up to the end of its body. -/
def functionOf (words : List Rule) (name : Rule) : List Rule :=
  [optional "async"] ++ words ++
    [field .name name, part .callSignature, field .body (node .statementBlock)]

/-- Parameters between parentheses. -/
def parameterList : Rule := field .parameters (node .formalParameters)

/-- Classes and functions. -/
def callableDefinitions (d : Dialect) : List Definition := [
  .node .classExpression <| ranked .literal
    (seq ([decorators] ++ classTail d (optional (d.choose identifier (part .typeName))))),
  .node .classDeclaration <| d.choose
    (ranked .declare (seq ([decorators] ++ classTail d identifier ++
      [optional (token .omittedSemicolon)])))
    (leftAt .declare (seq ([decorators] ++ classTail d (part .typeName) ++
      [optional (token .omittedSemicolon)]))),
  .node .classHeritage <| d.choose
    (seq ["extends", part .expression])
    (choice [seq [node .extendsClause, optional (node .implementsClause)],
      node .implementsClause]),
  .node .functionExpression <|
    ranked .literal (seq (functionOf ["function"] (optional identifier))),
  .node .functionDeclaration <| rightAt .declare
    (seq (functionOf ["function"] identifier ++ [optional (token .omittedSemicolon)])),
  .node .generatorFunction <|
    ranked .literal (seq (functionOf ["function", "*"] (optional identifier))),
  .node .generatorFunctionDeclaration <| rightAt .declare
    (seq (functionOf ["function", "*"] identifier ++ [optional (token .omittedSemicolon)])),
  .node .arrowFunction <| seq [optional "async",
    choice [field .parameter (choice [reservedAsName, identifier]), part .callSignature], "=>",
    field .body (choice [part .expression, node .statementBlock])],
  d.choose (.inlined .callSignature parameterList)
    (.part .callSignature <| seq [
      field .typeParameters (optional (node .typeParameters)), parameterList,
      field .returnType (optional (choice [
        node .annotatedType, node .assertedResult, node .predicateResult]))]),
  d.choose (.inlined .parameter <| choice [part .pattern, node .assignmentPattern])
    (.part .parameter <| choice [node .requiredParameter, node .optionalParameter]),
  d.choose (.token (.word "?.")) (.node .optionalChain "?.")]

end BundleReach.Script
