import BundleReach.Text.Blank
import BundleReach.Script.Token

/-!
# Lexemes of scripts

Each function of this module looks at the front of a text and says how many characters of it form
one lexeme of a given class; zero means that none stands there.  The lengths are what the reader
of tokens builds on: the lexeme is the front part of that length.

Names are read by exclusion: every character that is not blank, a control, a digit at the front,
or one of the marks of the script may stand in a name, and so may an escape such as `\u0061`.

A byte that is no text is seen as `noText`.  It may stand within comments and strings, and nowhere
else.  The null character stands for the end of the text as well, so it belongs to no lexeme.

* `Token.width` — the length of the lexeme of a token.
* `Token.canBegin` — the characters that a token may begin with.
-/

namespace BundleReach.Script.Lexeme

open BundleReach.Text

/-! ## Characters -/

/-- What a byte that is no text is seen as: a code point that is set aside for use within programs
and stands for no character. -/
def noText : Char := Char.ofNat 0xFDEF

/-- Is this a character that a lexeme may hold at all? -/
def isPresent (c : Char) : Bool := c.toNat != 0

/-- Characters that separate tokens. -/
def isSeparator (c : Char) : Bool :=
  (isWhiteSpace c && c.toNat != 0x85) || c.toNat == 0xFEFF || c.toNat == 0x2060 ||
    c.toNat == 0x200B

/-- ASCII white space. -/
def isPlainSpace (c : Char) : Bool := c == ' ' || (9 ≤ c.toNat && c.toNat ≤ 13)

/-- The ASCII marks that no name contains. -/
def marks : List Char := ":;\x60\"'@#.,|^&<=>+-*/\\%?!~()[]\x7b\x7d".toList

/-- May this character continue a name? -/
def isNameChar (c : Char) : Bool :=
  0x1F < c.toNat && !isSeparator c && !marks.contains c && c != noText

/-- May this character begin a name? -/
def isNameStart (c : Char) : Bool := isNameChar c && !c.isDigit

def isHexDigit (c : Char) : Bool :=
  c.isDigit || ('a' ≤ c && c ≤ 'f') || ('A' ≤ c && c ≤ 'F')

/-- Does a line comment end before this character? -/
def endsComment (c : Char) : Bool := c == '\r' || isLineEnd c || !isPresent c

/-! ## Runs -/

/-- The length of the longest front part whose characters all satisfy `p`. -/
def run (p : Char → Bool) : List Char → Nat
  | [] => 0
  | c :: cs => if p c then run p cs + 1 else 0

/-- Does the text begin with the given characters? -/
def startsWith : List Char → List Char → Bool
  | [], _ => true
  | _ :: _, [] => false
  | w :: ws, c :: cs => w == c && startsWith ws cs

/-! ## Names -/

/-- The length of the escape at the front of a text, for instance `\u0061` or `\u{61}`. -/
def nameEscape : List Char → Nat
  | '\\' :: 'u' :: '{' :: cs =>
    let digits := run isHexDigit cs
    if 0 < digits && startsWith ['}'] (cs.drop digits) then digits + 4 else 0
  | '\\' :: 'u' :: cs => if run isHexDigit (cs.take 4) == 4 then 6 else 0
  | _ => 0

/-- The length of a name from its second character on; `skip` counts the characters of an escape
that are still to come. -/
def nameTail : Nat → List Char → Nat
  | _, [] => 0
  | skip + 1, _ :: cs => nameTail skip cs + 1
  | 0, c :: cs =>
    if isNameChar c then nameTail 0 cs + 1
    else match nameEscape (c :: cs) with
      | 0 => 0
      | width + 1 => nameTail width cs + 1

/-- The length of the name at the front of a text. -/
def name : List Char → Nat
  | [] => 0
  | c :: cs =>
    if isNameStart c || 0 < nameEscape (c :: cs) then nameTail 0 (c :: cs) else 0

/-! ## Numbers -/

/-- Digits with single underscores between them. -/
def digits (p : Char → Bool) : List Char → Nat
  | [] => 0
  | c :: cs =>
    if p c then
      match cs with
      | '_' :: d :: _ => if p d then digits p cs + 1 else 1
      | _ => digits p cs + 1
    else if c == '_' then
      match cs with
      | d :: _ => if p d then digits p cs + 1 else 0
      | [] => 0
    else 0

/-- Digits that do not begin with an underscore. -/
def digitRun (p : Char → Bool) (cs : List Char) : Nat :=
  if startsWith ['_'] cs then 0 else digits p cs

/-- The exponent of a decimal, for instance `e+10`. -/
def exponent : List Char → Nat
  | e :: cs =>
    if e == 'e' || e == 'E' then
      let sign := if startsWith ['+'] cs || startsWith ['-'] cs then 1 else 0
      match digitRun Char.isDigit (cs.drop sign) with
      | 0 => 0
      | n => n + sign + 1
    else 0
  | [] => 0

/-- The length of an integer that a fraction or an exponent may follow: no leading zeros but one. -/
def wholePart (cs : List Char) : Nat :=
  match cs with
  | '0' :: d :: _ =>
    if '1' ≤ d && d ≤ '9' then digitRun Char.isDigit cs else 1
  | _ => digitRun Char.isDigit cs

/-- A decimal with its fraction and exponent. -/
def decimal (cs : List Char) : Nat :=
  let whole := wholePart cs
  let afterWhole := cs.drop whole
  if startsWith ['.'] afterWhole then
    let fraction := digitRun Char.isDigit (afterWhole.drop 1)
    if whole == 0 && fraction == 0 then 0
    else whole + 1 + fraction + exponent (afterWhole.drop (1 + fraction))
  else if whole == 0 then 0
  else whole + exponent afterWhole

/-- A number with a radix letter, such as `0xff`. -/
def radixNumber : List Char → Nat
  | '0' :: r :: cs =>
    let width :=
      if r == 'x' || r == 'X' then digitRun isHexDigit cs
      else if r == 'b' || r == 'B' then digitRun (fun c => c == '0' || c == '1') cs
      else if r == 'o' || r == 'O' then digitRun (fun c => '0' ≤ c && c ≤ '7') cs
      else 0
    if width == 0 then 0 else width + 2
  | _ => 0

/-- The number of characters with the suffix `n` of a big integer, if it stands there. -/
def withBigSuffix (width : Nat) (cs : List Char) : Nat :=
  if 0 < width && startsWith ['n'] (cs.drop width) then width + 1 else width

/-- The length of the number at the front of a text: the longest of the spellings that fit. -/
def number (cs : List Char) : Nat :=
  let whole := withBigSuffix (digitRun Char.isDigit cs) cs
  max (max (decimal cs) whole) (withBigSuffix (radixNumber cs) cs)

/-! ## Comments -/

/-- The rest of a block comment, after its opening mark; `none` when it is never closed. -/
def blockTail : List Char → Option Nat
  | [] => none
  | '*' :: '/' :: _ => some 2
  | c :: cs => if isPresent c then (blockTail cs).map (· + 1) else none

/-- The length of the comment at the front of a text. -/
def comment : List Char → Nat
  | '/' :: '/' :: cs => run (fun c => !endsComment c) cs + 2
  | '/' :: '*' :: cs =>
    match blockTail cs with
    | some n => n + 2
    | none => 0
  | _ => 0

/-- The length of a markup comment mark and the rest of its line. -/
def markupComment (cs : List Char) : Nat :=
  if startsWith "<!--".toList cs || startsWith "-->".toList cs then
    run (fun c => !isLineEnd c && isPresent c) cs
  else 0

/-! ## Regular expressions -/

/-- The rest of a class of characters, after its opening bracket; `none` when the line ends
before it is closed. -/
def classTail : List Char → Option Nat
  | [] => none
  | '\n' :: _ => none
  | '\\' :: c :: cs =>
    if c == '\n' || !isPresent c then none else (classTail cs).map (· + 2)
  | ']' :: _ => some 1
  | c :: cs => if isPresent c then (classTail cs).map (· + 1) else none

/-- The length of the pattern of a regular expression, up to its closing slash or the end of the
line; `skip` counts the characters that are still to come of an escape or a class. -/
def regexPattern : Nat → List Char → Nat
  | _, [] => 0
  | skip + 1, _ :: cs => regexPattern skip cs + 1
  | 0, c :: cs =>
    if c == '/' || c == '\n' || !isPresent c then 0
    else if c == '\\' then
      match cs with
      | [] => 0
      | d :: _ => if d == '\n' || !isPresent d then 0 else regexPattern 1 cs + 1
    else if c == '[' then
      match classTail cs with
      | none => 0
      | some n => regexPattern n cs + 1
    else regexPattern 0 cs + 1

/-! ## Quoted text -/

/-- Does this character, when escaped, take a line end after it along? -/
def takesLineEnd (c : Char) : Bool := c == '\r' || c == '?'

/-- The length of the escape sequence at the front of a text. -/
def escape : List Char → Nat
  | '\\' :: 'x' :: cs => if run isHexDigit (cs.take 2) == 2 then 4 else 0
  | '\\' :: 'u' :: cs => nameEscape ('\\' :: 'u' :: cs)
  | '\\' :: c :: cs =>
    if '0' ≤ c && c ≤ '7' then 2 + run (fun d => '0' ≤ d && d ≤ '7') (cs.take 2)
    else if takesLineEnd c && (cs.head?.map isLineEnd).getD false then 3
    else if isPresent c then 2
    else 0
  | _ => 0

/-- The length of a piece of text with at most the given length: a byte that is no text belongs to
it only if there is more than blanks before it. -/
def upToText (width : Nat) (cs : List Char) : Nat :=
  let blanks := run isSeparator cs
  if (cs.drop blanks).head? == some noText then min blanks width else width

/-- The length of the plain text at the front of a string, up to its quote, its line's end or an
escape. -/
def stringPiece (quote : Char) (cs : List Char) : Nat :=
  upToText (run (fun c => c != quote && c != '\\' && c != '\r' && c != '\n' && isPresent c) cs) cs

/-- The length of the plain text at the front of a string in markup, up to its quote or a character
reference; an ampersand takes the character after it along. -/
def markupRun (quote : Char) : List Char → Nat
  | [] => 0
  | '&' :: cs =>
    match cs with
    | [] => 0
    | d :: rest =>
      if isPresent d && d != '#' && !d.isAlpha then markupRun quote rest + 2 else 0
  | c :: cs => if c != quote && isPresent c then markupRun quote cs + 1 else 0

/-- The length of a piece of a string in markup. -/
def markupPiece (quote : Char) (cs : List Char) : Nat := upToText (markupRun quote cs) cs

/-- The length of a character reference in markup, such as `&nbsp;` or `&#160;`. -/
def characterReference : List Char → Nat
  | '&' :: '#' :: x :: cs =>
    if x == 'x' || x == 'X' then
      let n := run isHexDigit cs
      if 1 ≤ n && n ≤ 6 && startsWith [';'] (cs.drop n) then n + 4 else 0
    else
      let n := run Char.isDigit (x :: cs)
      if 1 ≤ n && n ≤ 5 && startsWith [';'] ((x :: cs).drop n) then n + 3 else 0
  | '&' :: cs =>
    let n := run Char.isAlpha cs
    if 1 ≤ n && n ≤ 30 && startsWith [';'] (cs.drop n) then n + 2 else 0
  | _ => 0

/-- The length of a hyphenated markup name such as `k-l`. -/
def hyphenatedName : List Char → Nat
  | c :: cs =>
    let isPlain := fun d : Char => d.isAlphanum || d == '_' || d == '$'
    if c.isAlpha || c == '_' || c == '$' then
      let front := run isPlain cs
      if startsWith ['-'] (cs.drop front) then
        1 + front + run (fun d => isPlain d || d == '-') (cs.drop front)
      else 0
    else 0
  | [] => 0

/-! ## Rare lexemes -/

/-- The length of the line at the front of a text that tells what runs it. -/
def hashBang (cs : List Char) : Nat :=
  if startsWith "#!".toList cs then run (fun c => c != '\n' && isPresent c) cs else 0

/-- The length of a run of blanks up to the last line feed in it. -/
def blanksToLineFeed (cs : List Char) : Nat :=
  let blanks := cs.take (run isPlainSpace cs)
  (blanks.reverse.dropWhile (· != '\n')).length

/-- The length of the words `static get` where a line ends after them. -/
def staticGetLine (cs : List Char) : Nat :=
  if startsWith "static".toList cs then
    let afterStatic := cs.drop 6
    let blanks := run isPlainSpace afterStatic
    let afterBlanks := afterStatic.drop blanks
    if 0 < blanks && startsWith "get".toList afterBlanks then
      match blanksToLineFeed (afterBlanks.drop 3) with
      | 0 => 0
      | n => 6 + blanks + 3 + n
    else 0
  else 0

/-- The length of a name after a hash. -/
def privateName : List Char → Nat
  | '#' :: cs =>
    match name cs with
    | 0 => 0
    | n => n + 1
  | _ => 0

end BundleReach.Script.Lexeme

namespace BundleReach.Script.Token

open Lexeme

/-- The length of the lexeme of a token at the front of a text; zero if none stands there, or if
the token is not told from its characters alone. -/
def width (t : Token) (cs : List Char) : Nat :=
  match t with
  | word text => if startsWith text.toList cs then text.length else 0
  | identifier => name cs
  | privateName => Lexeme.privateName cs
  | number => Lexeme.number cs
  | comment => Lexeme.comment cs
  | hashBang => Lexeme.hashBang cs
  | staticGetLine => Lexeme.staticGetLine cs
  | stringPiece quote => Lexeme.stringPiece quote cs
  | markupPiece quote => Lexeme.markupPiece quote cs
  | escape => Lexeme.escape cs
  | regexPattern => upToText (Lexeme.regexPattern 0 cs) cs
  | regexEnd => if startsWith ['/'] cs then 1 else 0
  | regexFlags => run Char.isLower cs
  | characterReference => Lexeme.characterReference cs
  | hyphenName => hyphenatedName cs
  | endOfText | omittedSemicolon | omittedBody | templatePiece | questionMark | markupComment
  | markupText => 0

/-- May the token begin with this character, after any blanks? -/
def canBegin (t : Token) (c : Char) : Bool :=
  match t with
  | word text => text.toList.head? == some c
  | identifier => isNameStart c || c == '\\'
  | privateName | hashBang => c == '#'
  | number => c.isDigit || c == '.'
  | comment | regexEnd => c == '/'
  | staticGetLine => c == 's'
  | stringPiece quote => c != quote && c != '\\' && c != '\r' && c != '\n'
  | markupPiece quote => c != quote
  | escape => c == '\\'
  | regexPattern => c != '/' && c != '\n'
  | regexFlags => c.isLower
  | characterReference => c == '&'
  | hyphenName => c.isAlpha || c == '_' || c == '$'
  | endOfText | omittedSemicolon | omittedBody | templatePiece | questionMark | markupComment
  | markupText => false

/-- Must the token follow at once, with no blanks before it? -/
def isImmediate : Token → Bool
  | stringPiece _ | markupPiece _ | escape | regexPattern | regexEnd | regexFlags => true
  | _ => false

/-- Does the token go before all others wherever it can be read? -/
def isDominant : Token → Bool
  | stringPiece _ | markupPiece _ | regexEnd => true
  | _ => false

/-- How specific a token is: of two lexemes of one length, the more specific token is meant. -/
def specificity : Token → Nat
  | word _ => 2
  | escape | regexFlags => 1
  | _ => 0

/-- Is the token looked for among the characters alone? -/
def isPlain : Token → Bool
  | endOfText | omittedSemicolon | omittedBody | templatePiece | questionMark | markupComment
  | markupText => false
  | _ => true

end BundleReach.Script.Token
