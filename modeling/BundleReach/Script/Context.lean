import BundleReach.Script.Lexeme

/-!
# Tokens that depend on what is expected

A few tokens are looked for before all others, and only where the grammar expects them: the text of
a template or of a markup element, a semicolon that is left out, the question mark of a
conditional, and a comment in the way of markup.

A statement may leave out its final semicolon before a closing brace, at the end of the text, or at
a line break that the next token does not bridge.  The search looks at characters only: a line that
begins with an operator, an opening bracket or the like continues the statement above it.

Main definition: `Expectation.find?`.
-/

namespace BundleReach.Script

open BundleReach.Text Lexeme

/-- A token that was found: how many characters are passed over before it, and how many it has. -/
structure Finding where
  token : Token
  skipped : Nat
  width : Nat

/-- What the grammar expects where tokens are looked for. -/
structure Expectation where
  dialect : Dialect
  expects : Token → Bool

namespace Expectation

/-- The character at the front, or the null character where there is none. -/
def front (cs : List Char) : Char := cs.headD '\x00'

/-- Is the text over?  The null character ends a text as its end does. -/
def isOver (cs : List Char) : Bool := !isPresent (front cs)

/-! ## Templates and markup -/

/-- The length of the plain text at the front of a template, up to its end, a substitution or an
escape; `none` if the text is over before that. -/
def templateWidth : List Char → Option Nat
  | [] => none
  | '$' :: '{' :: _ => some 0
  | c :: cs =>
    if c == '\x60' || c == '\\' then some 0
    else if isPresent c then (templateWidth cs).map (· + 1)
    else none

/-- The plain text of a template. -/
def template? (cs : List Char) : Option Finding :=
  match templateWidth cs with
  | some (n + 1) => some ⟨.templatePiece, 0, n + 1⟩
  | _ => none

/-- What a run of markup text has shown so far. -/
structure TextSeen where
  visible : Bool
  afterNewline : Bool

/-- One more character of markup text: line breaks and the indentation after them are invisible. -/
def TextSeen.step (s : TextSeen) (c : Char) : TextSeen :=
  if c == '\n' then { s with afterNewline := true }
  else
    let blank := s.afterNewline && isLayoutSpace c
    { visible := s.visible || !blank, afterNewline := blank }

/-- May this character stand in the text of a markup element? -/
def isMarkupText (c : Char) : Bool :=
  c != '<' && c != '>' && c != '{' && c != '}' && c != '&' && isPresent c

/-- The visible text at the front of the content of a markup element. -/
def markupText? (cs : List Char) : Option Finding :=
  let width := run isMarkupText cs
  if ((cs.take width).foldl TextSeen.step ⟨false, false⟩).visible
  then some ⟨.markupText, 0, width⟩ else none

/-- A mark of a markup comment, and the rest of its line. -/
def markupComment? (cs : List Char) : Option Finding :=
  let blanks := run (fun c => isLayoutSpace c || isLineEnd c) cs
  match Lexeme.markupComment (cs.drop blanks) with
  | 0 => none
  | n => some ⟨.markupComment, blanks, n⟩

/-! ## Conditionals -/

/-- The question mark of a conditional, which is not the beginning of another mark. -/
def questionMark? (d : Dialect) (cs : List Char) : Option Finding :=
  let blanks := run isLayoutSpace cs
  match cs.drop blanks with
  | '?' :: rest =>
    let next := front rest
    if next == '?' || (d == .typed && next == '.') then none
    else
      let after := if d = .typed then rest.drop (run isLayoutSpace rest) else rest
      let closes := d == .typed && [':', ')', ','].contains (front after)
      let chains := front after == '.' && !(front (after.drop 1)).isDigit
      if closes || chains then none else some ⟨.questionMark, blanks, 1⟩
  | _ => none

/-! ## Semicolons -/

/-- What follows blanks and comments, with what was met on the way. -/
structure Passage where
  rest : List Char
  /-- Was a comment met that says nothing about line breaks? -/
  comment : Bool

/-- What skipping blanks and comments ran into. -/
inductive Skipped where
  /-- A slash that opens no comment. -/
  | slash
  /-- Something else, on a new line or with nothing but line comments before it. -/
  | reached
  /-- The end of a block comment that spans no line break. -/
  | sameLine
  deriving DecidableEq

/-- Does a line comment end before this character, where semicolons are concerned? -/
def endsLine (d : Dialect) (c : Char) : Bool := c == '\n' || (d == .plain && isLineEnd c)

/-- The text after a line comment, from its line end on. -/
def afterLine (d : Dialect) (cs : List Char) : List Char :=
  cs.drop (run (fun c => !endsLine d c && isPresent c) cs)

/-- The text after a block comment, or where the text is over, with whether it was closed and
whether it spans a line break. -/
def afterBlock : List Char → Bool → List Char × Bool × Bool
  | [], broken => ([], false, broken)
  | '*' :: '/' :: cs, broken => (cs, true, broken)
  | c :: cs, broken =>
    if isPresent c then afterBlock cs (broken || isLineEnd c) else (c :: cs, false, broken)

/-- Skips layout space and comments.  With `through` every comment is skipped; without it a block
comment ends the search, unless a slash follows.  `fuel` bounds the number of comments. -/
def skip (d : Dialect) (through : Bool) : Nat → Bool → Passage → Skipped × Passage
  | 0, _, p => (.reached, p)
  | fuel + 1, broken, p =>
    let cs := p.rest.drop (run isLayoutSpace p.rest)
    match cs with
    | '/' :: '/' :: cs => skip d through fuel broken ⟨afterLine d cs, true⟩
    | '/' :: '*' :: cs =>
      let (rest, closed, broken) := afterBlock cs broken
      let passage : Passage := ⟨rest, p.comment || (closed && d == .plain)⟩
      if through || !closed || startsWith ['/'] rest then skip d through fuel broken passage
      else (if broken then .reached else .sameLine, passage)
    | '/' :: rest => (.slash, ⟨rest, p.comment⟩)
    | _ => (.reached, ⟨cs, p.comment⟩)

/-- May the character stand within a word? -/
def isWordLetter (c : Char) : Bool := c.isAlpha || (0x7F < c.toNat && isNameChar c)

/-- Does the text continue with the operator `in` or `instanceof` after its letter `i`? -/
def continuesMembership : List Char → Bool
  | 'n' :: cs =>
    if isWordLetter (front cs) then
      startsWith "stanceof".toList cs && !isWordLetter (front (cs.drop 8))
    else true
  | _ => false

/-- Marks that always continue the statement of the line above. -/
def bridges (d : Dialect) (c : Char) : Bool :=
  "\x60,:;*%><=?^|&/".toList.contains c || (d == .typed && c == '.')

/-- Does the text on a new line begin a new statement? -/
def startsAfresh (e : Expectation) (cs : List Char) : Bool :=
  let c := front cs
  let rest := cs.drop 1
  let operator := e.expects (.word "||")
  if bridges e.dialect c then false
  else if c == '.' then (front rest).isDigit
  else if c == '(' || c == '[' then e.dialect == .typed && !operator
  else if c == '{' then !(e.dialect == .typed && e.expects .omittedBody)
  else if c == '+' then startsWith ['+'] rest
  else if c == '-' then startsWith ['-'] rest
  else if c == '!' then !startsWith ['='] rest
  else if c == 'i' then !continuesMembership rest
  else true

/-- May a statement end before a closing brace?  A colon after the brace tells that it closes a
typed pattern. -/
def closesBlock (e : Expectation) (cs : List Char) : Bool :=
  match e.dialect with
  | .plain => true
  | .typed =>
    if startsWith [':'] (cs.drop (run isLayoutSpace cs)) then e.expects (.word "||") else true

/-- Skips a comment that stands on the line of a statement.  A comment that spans a line break may
end the statement by itself. -/
def passComment (e : Expectation) (fuel : Nat) (p : Passage) : Option Bool × Passage :=
  if e.dialect = .plain && front p.rest == '/' then
    match skip e.dialect false fuel false p with
    | (.slash, p) => (some false, p)
    | (found, p) =>
      let c := front p.rest
      let ends := found == .reached && !e.expects (.word "||") && c != ',' && c != '='
      (if ends then some true else none, p)
  else (none, p)

/-- Does the statement before this text end here, with no semicolon written?  The second answer
tells whether a comment was met.  `fuel` bounds the number of characters looked at. -/
def endsStatement (e : Expectation) : Nat → Passage → Bool × Bool
  | 0, p => (false, p.comment)
  | fuel + 1, p =>
    if isOver p.rest then (true, p.comment)
    else match e.passComment (fuel + 1) p with
      | (some ends, p) => (ends, p.comment)
      | (none, p) =>
        let c := front p.rest
        let rest := p.rest.drop 1
        if c == '}' then (e.closesBlock rest, p.comment)
        else if endsLine e.dialect c then
          match skip e.dialect true (fuel + 1) false ⟨rest, p.comment⟩ with
          | (.slash, p) => (false, p.comment)
          | (_, p) => (e.startsAfresh p.rest, p.comment)
        else if isLayoutSpace c then endsStatement e fuel ⟨rest, p.comment⟩
        else (false, p.comment)

/-- A semicolon that is left out, or else the question mark of a conditional. -/
def semicolon? (e : Expectation) (cs : List Char) : Option Finding :=
  match e.endsStatement (cs.length + 1) ⟨cs, false⟩ with
  | (true, _) => some ⟨.omittedSemicolon, 0, 0⟩
  | (false, comment) =>
    if comment || !e.expects .questionMark then none else questionMark? e.dialect cs

/-- The token at the front of a text that is found because it is expected. -/
def find? (e : Expectation) (cs : List Char) : Option Finding :=
  if e.expects .templatePiece then
    if e.expects .omittedSemicolon then none else template? cs
  else
    match (if e.expects .markupText then markupText? cs else none) with
    | some f => some f
    | none =>
      if e.expects .omittedSemicolon || e.expects .omittedBody then e.semicolon? cs
      else if e.expects .questionMark then questionMark? e.dialect cs
      else if e.expects .markupComment && !e.expects (.word "||") && !e.expects .escape &&
          !e.expects .regexPattern then markupComment? cs
      else none

end Expectation

end BundleReach.Script
