import BundleReach.Json.Basic
import BundleReach.Numeral.Digit
import BundleReach.Text.CodeUnit

/-!
# Reading JSON

A document is one value with nothing but blanks around it.  Besides what the format allows, the
words `NaN`, `Infinity` and `-Infinity` are numbers.  The first mistake ends the reading and is told
with its line, its column and its offset, all counted in characters.

Main definition: `Json.read`.
-/

namespace BundleReach.Json

open Numeral (Double)
open Text (isHighUnit isLowUnit loneUnit pairedUnits)

/-- What is wrong at some place of a document. -/
inductive Fault where
  | noValue
  | noName
  | noColon
  | noComma
  | openText
  | controlCharacter
  | unknownEscape
  | badCodeUnit
  | trailingData
  | byteOrderMark
  deriving DecidableEq, Repr

/-- Why a reading stopped: a fault at the place where the given characters are left, or a whole
number of too many digits. -/
inductive Stop where
  | fault (f : Fault) (left : List Char)
  | longNumber (digits : Nat)

/-- Whole numbers of more digits than this are refused. -/
def longestNumber : Nat := 4300

def isBlank (c : Char) : Bool := c == ' ' || c == '\t' || c == '\n' || c == '\r'

/-- The characters after the blanks. -/
def skipBlanks (cs : List Char) : List Char := cs.dropWhile isBlank

/-! ## Texts -/

/-- The code unit that four digits write, something more being owed after them. -/
def codeUnit? : List Char → Option (Nat × List Char)
  | a :: b :: c :: d :: next :: rest =>
    (Numeral.digitsIn? 16 [a, b, c, d]).map fun n => (n, next :: rest)
  | _ => none

/-- The character that an escaped code unit begins, and the characters after it. -/
def joinUnits (unit : Nat) (rest : List Char) : Char × List Char :=
  if isHighUnit unit then
    match rest with
    | '\\' :: 'u' :: more =>
      match codeUnit? more with
      | some (second, after) =>
        if isLowUnit second then (pairedUnits unit second, after) else (loneUnit unit, rest)
      | none => (loneUnit unit, rest)
    | _ => (loneUnit unit, rest)
  else if isLowUnit unit then (loneUnit unit, rest)
  else (Char.ofNat unit, rest)

/-- The character that a letter after a backslash writes. -/
def escaped? : Char → Option Char
  | '\x22' => some '\x22'
  | '\\' => some '\\'
  | '/' => some '/'
  | 'b' => some (Char.ofNat 8)
  | 'f' => some (Char.ofNat 12)
  | 'n' => some '\n'
  | 'r' => some '\r'
  | 't' => some '\t'
  | _ => none

/-- The characters of a text up to its closing quote.  `opening` is what is left at its opening
quote. -/
def textTail (opening : List Char) : Nat → List Char → Except Stop (List Char × List Char)
  | 0, _ => .error (.fault .openText opening)
  | fuel + 1, cs =>
    match cs with
    | [] => .error (.fault .openText opening)
    | '\x22' :: rest => .ok ([], rest)
    | '\\' :: 'u' :: rest =>
      match codeUnit? rest with
      | some (unit, after) => do
        let (c, after) := joinUnits unit after
        let (tail, after) ← textTail opening fuel after
        return (c :: tail, after)
      | none => .error (.fault .badCodeUnit ('u' :: rest))
    | '\\' :: c :: rest =>
      match escaped? c with
      | some e => do
        let (tail, after) ← textTail opening fuel rest
        return (e :: tail, after)
      | none => .error (.fault .unknownEscape cs)
    | ['\\'] => .error (.fault .openText opening)
    | c :: rest =>
      if c.toNat < 0x20 then .error (.fault .controlCharacter cs)
      else do
        let (tail, after) ← textTail opening fuel rest
        return (c :: tail, after)

/-- A text whose opening quote comes next. -/
def readText (cs : List Char) : Except Stop (String × List Char) := do
  let (chars, rest) ← textTail cs cs.length (cs.drop 1)
  return (String.ofList chars, rest)

/-! ## Numbers -/

/-- The number that digits write in base ten. -/
def digitsValue (ds : List Char) : Nat := ds.foldl (fun n c => 10 * n + (c.toNat - 48)) 0

/-- The fraction that follows the whole part of a number: a point and at least one digit. -/
def fractionDigits (cs : List Char) : List Char :=
  match cs with
  | '.' :: rest => rest.takeWhile Char.isDigit
  | _ => []

/-- The sign and digits of the exponent of a number, with the number of characters it takes. -/
def exponentOf (cs : List Char) : Option (Bool × List Char × Nat) :=
  match cs with
  | e :: rest =>
    if e == 'e' || e == 'E' then
      let (negative, digits, taken) :=
        match rest with
        | '-' :: more => (true, more.takeWhile Char.isDigit, 2)
        | '+' :: more => (false, more.takeWhile Char.isDigit, 2)
        | _ => (false, rest.takeWhile Char.isDigit, 1)
      if digits.isEmpty then none else some (negative, digits, taken + digits.length)
    else none
  | [] => none

/-- A number without its sign: its whole part is zero or does not begin with zero. -/
def readUnsigned (start : List Char) (negative : Bool) (cs : List Char) :
    Except Stop (Json × List Char) := do
  let whole :=
    match cs with
    | '0' :: _ => ['0']
    | _ => cs.takeWhile Char.isDigit
  if whole.isEmpty then throw (.fault .noValue start)
  let rest := cs.drop whole.length
  let fraction := fractionDigits rest
  let rest := if fraction.isEmpty then rest else rest.drop (fraction.length + 1)
  let exponent := exponentOf rest
  if fraction.isEmpty ∧ exponent.isNone then
    if longestNumber < whole.length then throw (.longNumber whole.length)
    let n : Int := digitsValue whole
    return (int (if negative then -n else n), rest)
  let (below, digits, taken) := exponent.getD (false, [], 0)
  let e : Int := digitsValue digits
  let e := (if below then -e else e) - fraction.length
  return (float (Double.ofDecimal negative (digitsValue (whole ++ fraction)) e), rest.drop taken)

/-- A number, with or without a sign. -/
def readNumber (cs : List Char) : Except Stop (Json × List Char) :=
  match cs with
  | '-' :: rest => readUnsigned cs true rest
  | _ => readUnsigned cs false cs

/-! ## Values -/

/-- The words that stand for values. -/
def words : List (List Char × Json) :=
  [("null".toList, null), ("true".toList, bool true), ("false".toList, bool false),
    ("NaN".toList, float .notANumber), ("Infinity".toList, float (.infinite false)),
    ("-Infinity".toList, float (.infinite true))]

/-- The word that the characters begin with. -/
def word? (cs : List Char) : Option (Json × List Char) :=
  (words.find? fun w => w.1.isPrefixOf cs).map fun w => (w.2, cs.drop w.1.length)

mutual

/-- The value that begins here. -/
def readValue : Nat → List Char → Except Stop (Json × List Char)
  | 0, cs => .error (.fault .noValue cs)
  | fuel + 1, cs =>
    match cs with
    | '\x22' :: _ => do
      let (s, rest) ← readText cs
      return (text s, rest)
    | '{' :: rest =>
      match skipBlanks rest with
      | '}' :: after => .ok (object [], after)
      | inside => do
        let (members, after) ← readMembers fuel [] inside
        return (object members, after)
    | '[' :: rest =>
      match skipBlanks rest with
      | ']' :: after => .ok (list [], after)
      | inside => do
        let (items, after) ← readItems fuel inside
        return (list items, after)
    | _ =>
      match word? cs with
      | some found => .ok found
      | none => readNumber cs

/-- The items of a list up to its closing bracket. -/
def readItems : Nat → List Char → Except Stop (List Json × List Char)
  | 0, cs => .error (.fault .noValue cs)
  | fuel + 1, cs => do
    let (item, rest) ← readValue fuel cs
    match skipBlanks rest with
    | ']' :: after => return ([item], after)
    | ',' :: more =>
      let (items, after) ← readItems fuel (skipBlanks more)
      return (item :: items, after)
    | here => throw (.fault .noComma here)

/-- The members of an object up to its closing brace, after those already read. -/
def readMembers :
    Nat → List (String × Json) → List Char → Except Stop (List (String × Json) × List Char)
  | 0, _, cs => .error (.fault .noName cs)
  | fuel + 1, members, cs =>
    match cs with
    | '\x22' :: _ => do
      let (name, rest) ← readText cs
      match skipBlanks rest with
      | ':' :: more =>
        let (value, rest) ← readValue fuel (skipBlanks more)
        let members := Table.put name value members
        match skipBlanks rest with
        | '}' :: after => return (members, after)
        | ',' :: more => readMembers fuel members (skipBlanks more)
        | here => throw (.fault .noComma here)
      | here => throw (.fault .noColon here)
    | _ => .error (.fault .noName cs)

end

/-- A whole document: one value between blanks. -/
def readDocument (cs : List Char) : Except Stop Json := do
  if cs.head? = some (Char.ofNat 0xFEFF) then throw (.fault .byteOrderMark cs)
  let (value, rest) ← readValue (2 * cs.length + 2) (skipBlanks cs)
  match skipBlanks rest with
  | [] => return value
  | here => throw (.fault .trailingData here)

/-! ## What is told about a mistake -/

/-- A place of a document: lines and columns count from one, offsets from zero. -/
structure Position where
  line : Nat
  column : Nat
  offset : Nat
  deriving DecidableEq, Repr

/-- The place after the given characters. -/
def Position.after (before : List Char) : Position :=
  ⟨before.count '\n' + 1, (before.reverse.takeWhile (· != '\n')).length + 1, before.length⟩

/-- Why a document cannot be read. -/
inductive Error where
  | fault (f : Fault) (place : Position)
  | longNumber (digits : Nat)
  deriving DecidableEq, Repr

/-- Reads a document. -/
def read (cs : List Char) : Except Error Json :=
  match readDocument cs with
  | .ok j => .ok j
  | .error (.longNumber n) => .error (.longNumber n)
  | .error (.fault f left) =>
    .error (.fault f (Position.after (cs.take (cs.length - left.length))))

def Fault.message : Fault → String
  | noValue => "Expecting value"
  | noName => "Expecting property name enclosed in double quotes"
  | noColon => "Expecting ':' delimiter"
  | noComma => "Expecting ',' delimiter"
  | openText => "Unterminated string starting at"
  | controlCharacter => "Invalid control character at"
  | unknownEscape => "Invalid \\escape"
  | badCodeUnit => "Invalid \\uXXXX escape"
  | trailingData => "Extra data"
  | byteOrderMark => "Unexpected UTF-8 BOM (decode using utf-8-sig)"

def Error.message : Error → String
  | fault f p =>
    f.message ++ ": line " ++ toString p.line ++ " column " ++ toString p.column ++
      " (char " ++ toString p.offset ++ ")"
  | longNumber digits =>
    "Exceeds the limit (" ++ toString longestNumber ++
      " digits) for integer string conversion: value has " ++ toString digits ++
      " digits; use sys.set_int_max_str_digits() to increase the limit"

end BundleReach.Json
