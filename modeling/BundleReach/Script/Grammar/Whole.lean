import BundleReach.Script.Grammar.Linkage
import BundleReach.Script.Grammar.Statement
import BundleReach.Script.Grammar.Markup
import BundleReach.Script.Grammar.Operation
import BundleReach.Script.Grammar.Literal
import BundleReach.Script.Grammar.Type

/-!
# The two grammars

All the definitions of each dialect, and the orders of precedence that settle what they leave open.
The first definition is that of a whole script.

* `definitions` — the definitions of a dialect.
* `precedenceOrders` — which levels and constructs bind more tightly than which others.
-/

namespace BundleReach.Script

/-- The definitions of a dialect. -/
def definitions (d : Dialect) : List Definition :=
  linkageDefinitions d ++ statementDefinitions d ++ expressionDefinitions d ++
    d.choose markupDefinitions nestedNameDefinitions ++ callableDefinitions d ++
    operationDefinitions d ++ literalDefinitions ++ memberDefinitions d ++
    d.choose [] (typedDefinitions ++ typeDefinitions)

/-- A place in an order of precedence: that of the alternatives of a level, or that of the
constructs of one head. -/
inductive Rank where
  | level (l : Level)
  | head (h : Head)
  deriving DecidableEq, Hashable, Repr

namespace Rank

instance : Coe Level Rank := ⟨level⟩

def node (k : Kind) : Rank := head (.node k)

def part (p : Part) : Rank := head (.part p)

end Rank

open Level Rank in
/-- Orders of precedence for both dialects, the tightest first. -/
def commonOrders : List (List Rank) := [
  [member, templateCall, call, node .updateExpression, unaryWord, power, times, plus, shift,
    relation, equality, bitAnd, bitXor, bitOr, logicalAnd, logicalOr, conditional,
    node .sequenceExpression, node .arrowFunction],
  [assign, part .primaryExpression],
  [member, templateCall, new, call, part .expression],
  [declare, literal].map level,
  [part .primaryExpression, node .statementBlock, object],
  [node .metaProperty, node .importValue],
  [node .importStatement, node .importValue],
  [node .exportStatement, part .primaryExpression],
  [node .lexicalDeclaration, part .primaryExpression]]

open Level Rank in
/-- Orders of precedence among types, and between types and expressions. -/
def typedOrders : List (List Rank) := [
  [call, instantiation, unary, binary, node .awaitExpression, node .arrowFunction],
  [extension, instantiation].map level,
  [node .intersectionType, node .unionType, node .conditionalType,
    node .functionType, binary, node .typePredicate, node .readonlyType],
  [node .mappedTypeClause, part .primaryExpression],
  [node .accessibilityModifier, part .primaryExpression],
  [unaryWord, part .expression],
  [node .extendsClause, part .primaryExpression],
  [unary, assign].map level,
  [declare, part .expression],
  [node .predefinedType, node .unaryExpression],
  [part .type, node .flowMaybeType],
  [node .tupleType, node .arrayType, part .pattern, part .type],
  [node .readonlyType, part .pattern],
  [node .readonlyType, part .primaryExpression]]

open Rank in
/-- Orders of precedence among what a type looks up, and between it and expressions. -/
def lookupOrders : List (List Rank) := [
  [node .typeQuery, node .subscriptExpression, part .expression],
  [node .typeQuery, part .queriedSubscript],
  [node .nestedTypeIdentifier, node .genericType, part .primaryType,
    node .lookupType, node .indexTypeQuery, part .type],
  [node .asExpression, node .satisfiesExpression, part .primaryType],
  [part .queriedMember, node .memberExpression],
  [node .memberExpression, part .annotatedMember],
  [part .queriedMember, part .primaryExpression],
  [part .queriedSubscript, node .subscriptExpression],
  [part .queriedSubscript, part .primaryExpression],
  [part .queriedCall, part .primaryExpression],
  [part .queriedInstantiation, part .primaryExpression],
  [node .typeQuery, part .primaryExpression],
  [node .overrideModifier, part .primaryExpression],
  [part .decoratorCall, node .decorator],
  [node .literalType, part .pattern],
  [node .predefinedType, part .pattern],
  [node .callExpression, part .queriedCall],
  [node .callExpression, part .annotatedCall],
  [node .newExpression, part .primaryExpression],
  [node .metaProperty, part .primaryExpression],
  [node .constructSignature, part .propertyName]]

/-- The orders of precedence of a dialect. -/
def precedenceOrders (d : Dialect) : List (List Rank) :=
  commonOrders ++ d.choose [] (typedOrders ++ lookupOrders)

end BundleReach.Script
