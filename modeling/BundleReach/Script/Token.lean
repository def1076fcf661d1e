import BundleReach.Script.Tree

/-!
# Tokens

The terminal symbols of the two grammars.  Most tokens are told from their characters alone; a few
depend on what the grammar expects where they stand: a semicolon that is left out, the text of a
template or of a markup element, and the question mark of a conditional.

* `Token` — the terminal symbols.
* `Token.kind?` — the kind of the node that a token becomes, if it becomes one.
-/

namespace BundleReach.Script

/-- A terminal symbol of a grammar. -/
inductive Token where
  | endOfText
  /-- A keyword or a mark, spelled as given. -/
  | word (text : String)
  | identifier
  | privateName
  | number
  | comment
  | hashBang
  /-- The words `static get` at the end of a line, where `get` may name a member. -/
  | staticGetLine
  /-- A piece of a string, up to its quote or an escape. -/
  | stringPiece (quote : Char)
  /-- A piece of a string in markup, up to its quote or a character reference. -/
  | markupPiece (quote : Char)
  | escape
  | regexPattern
  | regexEnd
  | regexFlags
  | characterReference
  /-- A markup name with a hyphen in it. -/
  | hyphenName
  /-- A semicolon that is left out. -/
  | omittedSemicolon
  /-- A semicolon left out in place of the body of a function. -/
  | omittedBody
  | templatePiece
  | questionMark
  | markupComment
  | markupText
  deriving DecidableEq, Repr

namespace Token

/-- What a token carries besides its kind. -/
def content : Token → String
  | word text => text
  | stringPiece quote | markupPiece quote => quote.toString
  | _ => ""

instance : Hashable Token where
  hash t := mixHash (hash t.ctorIdx) (hash t.content)

/-- Words that are constructs of the grammar by themselves. -/
def wordKind (text : String) : Kind :=
  match text with
  | "this" => .thisValue
  | "super" => .superValue
  | "true" => .trueLiteral
  | "false" => .falseLiteral
  | "null" => .nullLiteral
  | "undefined" => .undefinedLiteral
  | _ => .word

/-- The kind of the node that a token becomes.  What is left out becomes none. -/
def kind? : Token → Option Kind
  | word text => some (wordKind text)
  | identifier | hyphenName => some .identifier
  | privateName => some .privatePropertyIdentifier
  | number => some .number
  | comment | markupComment => some .comment
  | hashBang => some .hashBangLine
  | staticGetLine | questionMark | regexEnd => some .word
  | stringPiece _ | markupPiece _ | templatePiece => some .stringFragment
  | escape => some .escapeSequence
  | regexPattern => some .regexPattern
  | regexFlags => some .regexFlags
  | characterReference => some .characterReference
  | markupText => some .jsxText
  | endOfText | omittedSemicolon | omittedBody => none

/-- Is the token a keyword, spelled like a name? -/
def isKeyword : Token → Bool
  | word text => (text.toList.head?.map Char.isAlpha).getD false
  | _ => false

end Token

end BundleReach.Script
