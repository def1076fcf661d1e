import BundleReach.Json.Basic
import BundleReach.Text.CodeUnit
import BundleReach.Text.Shapeless
import BundleReach.Text.Utf8

/-!
# Writing JSON

A value is written as an indented document in ASCII, or in plain words where something other than a
text stands for a name.

Main definitions: `Json.indented` and `Json.words`.
-/

namespace BundleReach.Json

open Text (hexDigits)

/-! ## Documents -/

/-- Numbers in documents have words for what is not finite. -/
def numeral (d : Numeral.Double) : String := d.textWith "NaN" "Infinity"

/-- A code unit as an escape. -/
def escapedUnit (n : Nat) : List Char := '\\' :: 'u' :: hexDigits 4 n

/-- A character within a quoted text: those of ASCII that have a shape, and the space, are written as
they are. -/
def quotedChar (c : Char) : List Char :=
  if c = '\x22' ∨ c = '\\' then ['\\', c]
  else if c = '\n' then ['\\', 'n']
  else if c = '\r' then ['\\', 'r']
  else if c = '\t' then ['\\', 't']
  else if c.toNat = 8 then ['\\', 'b']
  else if c.toNat = 12 then ['\\', 'f']
  else if c.toNat < 0x20 then escapedUnit c.toNat
  else if c.toNat < 0x7F then [c]
  else if c.toNat < 0x10000 then escapedUnit c.toNat
  else
    match Text.loneUnit? c with
    | some unit => escapedUnit unit
    | none =>
      escapedUnit (0xD800 + (c.toNat - 0x10000) / 1024) ++
        escapedUnit (0xDC00 + (c.toNat - 0x10000) % 1024)

/-- A text in quotes. -/
def quoted (s : String) : String :=
  String.ofList ('\x22' :: s.toList.flatMap quotedChar ++ ['\x22'])

/-- Parts on lines of their own between two brackets, the closing one `depth` steps in. -/
def bracketed (depth : Nat) (opening closing : String) (parts : List String) : String :=
  let line (steps : Nat) : String := "\n" ++ String.ofList (List.replicate (2 * steps) ' ')
  if parts.isEmpty then opening ++ closing
  else
    opening ++ line (depth + 1) ++ ("," ++ line (depth + 1)).intercalate parts ++
      line depth ++ closing

/-- A document with a line for each part, two blanks for each step inwards, the whole `depth` steps
in. -/
def indentedAt (depth : Nat) : Json → String
  | null => "null"
  | bool b => if b then "true" else "false"
  | int i => toString i
  | float d => numeral d
  | text s => quoted s
  | list items => bracketed depth "[" "]" (itemsAt (depth + 1) items)
  | object ms => bracketed depth "\x7b" "\x7d" (membersAt (depth + 1) ms)
where
  itemsAt (depth : Nat) : List Json → List String
    | [] => []
    | j :: rest => indentedAt depth j :: itemsAt depth rest
  membersAt (depth : Nat) : List (String × Json) → List String
    | [] => []
    | m :: rest => (quoted m.1 ++ ": " ++ indentedAt depth m.2) :: membersAt depth rest

/-- A document with a line for each part. -/
def indented (j : Json) : String := indentedAt 0 j

/-! ## Plain words -/

/-- A character within a text in plain words, between two of the given quotes. -/
def plainChar (quote : Char) (c : Char) : List Char :=
  let n := c.toNat
  if c = quote ∨ c = '\\' then ['\\', c]
  else if c = '\n' then ['\\', 'n']
  else if c = '\r' then ['\\', 'r']
  else if c = '\t' then ['\\', 't']
  else if !Text.isShapeless c then [c]
  else if n < 0x100 then '\\' :: 'x' :: hexDigits 2 n
  else if n < 0x10000 then escapedUnit n
  else
    match Text.loneUnit? c with
    | some unit => escapedUnit unit
    | none => '\\' :: 'U' :: hexDigits 8 n

/-- A text in plain words: between single quotes, unless it holds those and no double ones. -/
def plainText (s : String) : String :=
  let cs := s.toList
  let quote := if cs.contains '\x27' && !cs.contains '\x22' then '\x22' else '\x27'
  String.ofList (quote :: cs.flatMap (plainChar quote) ++ [quote])

/-- A value in plain words, texts in quotes. -/
def plain : Json → String
  | null => "None"
  | bool b => if b then "True" else "False"
  | int i => toString i
  | float d => d.text
  | text s => plainText s
  | list items => "[" ++ ", ".intercalate (plainItems items) ++ "]"
  | object ms => "\x7b" ++ ", ".intercalate (plainMembers ms) ++ "\x7d"
where
  plainItems : List Json → List String
    | [] => []
    | j :: rest => plain j :: plainItems rest
  plainMembers : List (String × Json) → List String
    | [] => []
    | m :: rest => (plainText m.1 ++ ": " ++ plain m.2) :: plainMembers rest

/-- The words for a value that stands where a name belongs; a text is its own words. -/
def wording : Json → String
  | text s => s
  | j => plain j

end BundleReach.Json
