import BundleReach.Script.Grammar.Rule

/-!
# Markup elements

The definitions of elements between angle brackets, which plain scripts may hold as expressions.
-/

namespace BundleReach.Script

open Rule

/-- The attributes of an opening tag. -/
def elementAttributes : Rule := many (field .attribute (part .elementAttribute))

/-- A string in markup between two of the given quotes. -/
def quotedMarkup (quote : String) (piece : Token) : Rule :=
  seq [quote, many (choice [token piece, token .characterReference]), quote]

/-- Markup elements and their parts. -/
def markupDefinitions : List Definition := [
  .inlined .element <| choice [node .jsxElement, node .jsxSelfClosingElement],
  .node .jsxElement <| seq [field .openTag (node .jsxOpeningElement),
    many (part .elementChild), field .closeTag (node .jsxClosingElement)],
  .token .characterReference,
  .node .jsxExpression <| seq ["\x7b",
    optional (choice [part .expression, node .sequenceExpression, node .spreadElement]),
    "\x7d"],
  .inlined .elementChild <| choice [token .markupText, token .characterReference,
    part .element, node .jsxExpression],
  .node .jsxOpeningElement <| weighed (-1) (seq ["<",
    optional (seq [field .name (part .elementName), elementAttributes]), ">"]),
  .token .hyphenName,
  .inlined .simpleElementName <| choice [token .hyphenName, identifier],
  .part .dottedName <| ranked .member (seq [
    field .object (choice [identifier, part .dottedName]), ".",
    field .property (renamed .propertyIdentifier identifier)]),
  .node .jsxNamespaceName <| seq [part .simpleElementName, ":", part .simpleElementName],
  .inlined .elementName <|
    choice [part .simpleElementName, part .dottedName, node .jsxNamespaceName],
  .node .jsxClosingElement <| seq ["</", optional (field .name (part .elementName)), ">"],
  .node .jsxSelfClosingElement <|
    seq ["<", field .name (part .elementName), elementAttributes, "/>"],
  .inlined .elementAttribute <| choice [node .jsxAttribute, node .jsxExpression],
  .inlined .attributeName <| choice [
    renamed .propertyIdentifier (part .simpleElementName), node .jsxNamespaceName],
  .node .jsxAttribute <|
    seq [part .attributeName, optional (seq ["=", part .attributeValue])],
  .part .markupString <| choice [
    quotedMarkup "\x22" (.markupPiece '\x22'), quotedMarkup "'" (.markupPiece '\x27')],
  .token (.markupPiece '\x22'),
  .token (.markupPiece '\x27'),
  .inlined .attributeValue <|
    choice [part .markupString, node .jsxExpression, part .element]]

/-- Names with dots in them, where scripts have no markup elements. -/
def nestedNameDefinitions : List Definition := [
  .node .nestedIdentifier <| ranked .member (seq [
    field .object (choice [identifier, renamed .memberExpression (node .nestedIdentifier)]), ".",
    field .property (renamed .propertyIdentifier identifier)])]

end BundleReach.Script
