import BundleReach.Script.Grammar.Rule

/-!
# Literals and names

The definitions of strings, templates and regular expressions, and the tokens that stand for values
and names.
-/

namespace BundleReach.Script

open Rule

/-- A string between two of the given quotes. -/
def quotedString (quote : String) (piece : Token) : Rule :=
  seq [quote, many (choice [token piece, token .escape]), quote]

/-- Literals and names. -/
def literalDefinitions : List Definition := [
  .node .string <| choice [
    quotedString "\x22" (.stringPiece '\x22'), quotedString "'" (.stringPiece '\x27')],
  .token (.stringPiece '\x22'),
  .token (.stringPiece '\x27'),
  .token .escape,
  .token .comment,
  .node .templateString <| seq ["\x60", many (choice [
    token .templatePiece, token .escape, node .templateSubstitution]), "\x60"],
  .node .templateSubstitution <| seq ["$\x7b", part .expressions, "\x7d"],
  .node .regex <| seq ["/", field .pattern (token .regexPattern), token .regexEnd,
    optional (field .flags (token .regexFlags))],
  .token .regexEnd,
  .token .regexPattern,
  .token .regexFlags,
  .token .number,
  .inlined .name <| choice [token (.word "undefined"), identifier],
  .token .identifier,
  .token .privateName,
  .node .metaProperty <|
    choice [seq ["new", ".", "target"], seq ["import", ".", "meta"]],
  .token (.word "this"),
  .token (.word "super"),
  .token (.word "true"),
  .token (.word "false"),
  .token (.word "null"),
  .token (.word "undefined")]

end BundleReach.Script
