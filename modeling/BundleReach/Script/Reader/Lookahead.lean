import BundleReach.Script.Context
import BundleReach.Script.Reader.Subtree

/-!
# The next token

Which token comes next depends on the state: only tokens that the state knows are looked for.  If
none of them is there, all tokens are looked for; if there is none at all, text is passed over up
to the next place where a token begins.

* `Lexicon.find?` — the token at the front of a text.
* `Setting.lookahead` — the next token of the source, as a subtree.
-/

namespace BundleReach.Script

open Lexeme

/-! ## Tokens at the front of a text -/

/-- Tokens that are looked for together, with their numbers. -/
abbrev Lexicon := List (Nat × Token)

/-- A token at the front of a text: how many characters are passed over before it, and how many it
has. -/
structure Sighting where
  number : Nat
  token : Token
  skipped : Nat
  width : Nat

namespace Sighting

/-- Does the second sighting go before the first one?  Some tokens go before all others; else the
longer one does, and of two that are equally long the more specific one. -/
def isBetter (a b : Sighting) : Bool :=
  if a.token.isDominant != b.token.isDominant then b.token.isDominant
  else if a.skipped + a.width != b.skipped + b.width then a.skipped + a.width < b.skipped + b.width
  else a.token.specificity < b.token.specificity

end Sighting

namespace Lexicon

/-- The sighting of a token at the front of a text, given the number of blanks there and what
stands after them. -/
def sight? (cs rest : List Char) (blanks number : Nat) (t : Token) : Option Sighting :=
  if t = .endOfText then if rest.isEmpty then some ⟨number, t, blanks, 0⟩ else none
  else
    let (front, skipped) := if t.isImmediate then (cs, 0) else (rest, blanks)
    if (front.head?.map t.canBegin).getD false then
      match t.width front with
      | 0 => none
      | width => some ⟨number, t, skipped, width⟩
    else none

/-- The token at the front of a text. -/
def find? (l : Lexicon) (cs : List Char) : Option Sighting :=
  let blanks := run isSeparator cs
  let rest := cs.drop blanks
  l.foldl (fun best (number, t) =>
    match best, sight? cs rest blanks number t with
    | none, s => s
    | b, none => b
    | some b, some s => some (if b.isBetter s then s else b)) none

end Lexicon

/-! ## Words -/

/-- The words that are kept from being names in plain scripts. -/
def reservedWords : List String :=
  ["break", "case", "catch", "class", "const", "continue", "debugger", "default", "delete", "do",
    "else", "export", "extends", "false", "finally", "for", "function", "if", "import", "in",
    "instanceof", "new", "null", "return", "super", "switch", "this", "throw", "true", "try",
    "typeof", "var", "void", "while", "with"]

/-- Is the token a word that a row keeps from being a name? -/
def Row.reserves (r : Row) (g : Grammar) (t : Token) : Bool :=
  r.reserving && g.dialect == .plain &&
    match t with
    | .word text => reservedWords.contains text
    | _ => false

/-- The length of what is passed over where no token begins: the escape of a name as far as it goes,
or else one character.  An escape of a string may stand there as well, unless there are blanks
before it. -/
def strayWidth (afterBlanks : Bool) : List Char → Nat
  | [] => 0
  | '#' :: '\\' :: cs => 1 + escapeWidth cs
  | '\\' :: 'x' :: cs => if afterBlanks then 1 else 2 + run isHexDigit (cs.take 1)
  | '\\' :: cs => escapeWidth cs
  | _ => 1
where
  /-- The length of the beginning of a name's escape, after its backslash and with it. -/
  escapeWidth : List Char → Nat
    | 'u' :: '{' :: cs => 3 + run isHexDigit cs
    | 'u' :: cs => 2 + run isHexDigit (cs.take 3)
    | _ => 1

namespace Setting

/-- The number that a name has as a token in a state: the state may know it as a keyword. -/
def nameNumber (k : Setting) (r : Row) (name : String) : Nat :=
  let g := k.table.grammar
  let number := g.tokenNumber (.word name)
  if (Token.word name).isKeyword && number != 0 &&
      (r.expects number || r.reserves g (.word name)) then number
  else g.tokenNumber .identifier

/-- The place where tokens are looked for: a byte order mark at the beginning is passed over. -/
def entrance (k : Setting) (place : Nat) : Nat :=
  if place = 0 && startsWith ['\uFEFF'] (k.source.rest 0) then 1 else place

/-- The token that is found because a state expects it. -/
def expected? (k : Setting) (state place : Nat) : Option (Nat × Nat × Nat) :=
  let g := k.table.grammar
  let r := k.row state
  let start := k.entrance place
  let expects (t : Token) : Bool := ((g.numbers[Symbol.token t]?).map r.expects).getD false
  let e : Expectation := ⟨g.dialect, expects⟩
  (e.find? (k.source.rest start)).map fun f =>
    (g.tokenNumber f.token, start + f.skipped, start + f.skipped + f.width)

/-- Does a token lead from a state to another one? -/
def leadsOn (k : Setting) (state number : Nat) : Bool :=
  match ((k.row state).cell number).shift with
  | .taken n | .repeated n => n != state
  | .skipped => false
  | .refused | .lost => true

/-- The next token, if it is one that a state expects; one without extent is accepted only if
something has been read since the script last went wrong, and if it leads to another state. -/
def contextual? (k : Setting) (state place : Nat) (hasAdvanced : Bool) : Option Subtree :=
  match k.expected? state place with
  | none => none
  | some (number, start, stop) =>
    if stop ≤ place && !(hasAdvanced && k.leadsOn state number) then none
    else some (.leaf k.table.grammar (.token number) place start stop)

/-- The token of a lexicon at a place. -/
def plain? (k : Setting) (lexiconOf : Nat) (state place : Nat) : Option Subtree :=
  let lexicon := k.table.lexicons.getD (k.table.lexiconOf.getD lexiconOf 0) []
  let text := k.source.rest place
  (Lexicon.find? lexicon text).map fun s =>
    let number := if s.token = .identifier then
        k.nameNumber (k.row state) (String.ofList ((text.drop s.skipped).take s.width))
      else s.number
    .leaf k.table.grammar (.token number) place (place + s.skipped) (place + s.skipped + s.width)

/-- The place after all text from a place on that no token begins with; `fuel` bounds its
length. -/
def afterStray (k : Setting) : Nat → Nat → Nat
  | 0, place => place
  | fuel + 1, place =>
    match k.plain? 0 0 place with
    | some _ => place
    | none =>
      let text := k.source.rest place
      let blanks := run isSeparator text
      let width := strayWidth (0 < blanks) (text.drop blanks)
      k.afterStray fuel (place + blanks + max 1 width)

/-- Text that no token begins with, up to a token. -/
def stray (k : Setting) (place : Nat) : Subtree :=
  let start := place + run isSeparator (k.source.rest place)
  let stop := k.afterStray (k.source.size + 1) place
  .leaf k.table.grammar .mistake place start (min stop k.source.size)

/-- The next token of the source from a place on, in a state. -/
def lookahead (k : Setting) (state place : Nat) (hasAdvanced : Bool) : Subtree :=
  match k.contextual? state place hasAdvanced with
  | some t => t
  | none =>
    match k.plain? state state place with
    | some t => t
    | none =>
      match k.plain? 0 state place with
      | some t => t
      | none => k.stray place

end Setting

end BundleReach.Script
