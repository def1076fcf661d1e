import BundleReach.Numeral.Digit
import BundleReach.Text.Piece
import BundleReach.Toml.Ends
import BundleReach.Toml.Fault

/-!
# Texts of a settings file

A text stands between single quotes or triple ones.  Between double quotes a backslash begins an
escape, by a letter or by the number of a character.

Main definition: `readText`.
-/

namespace BundleReach.Toml

open Numeral (digitsIn?)
open Text (splitAtMark splitAtWord)

/-- The characters that letters after a backslash write. -/
def escapes : List (Char × Char) :=
  [('0', Char.ofNat 0), ('b', Char.ofNat 8), ('f', Char.ofNat 12), ('n', '\n'), ('r', '\r'),
    ('t', '\t'), ('\x22', '\x22')]

/-- Whether nothing follows the closing quote, given the pieces between quotes after the opening
one. -/
def closesOnce (long : Bool) : Bool → Nat → List (List Char) → Bool
  | _, _, [] => true
  | closed, count, piece :: rest =>
    if piece.isEmpty then
      if long then closesOnce long closed (count + 1) rest else closesOnce long true count rest
    else if endsEscaped piece then closesOnce long closed count rest
    else if closed then false
    else if !long || 1 < count then closesOnce long true count rest
    else closesOnce long closed 0 rest

/-- Whether every backslash in a text begins an escape, given the pieces after each backslash. -/
def escapesKnown : Bool → List (List Char) → Bool
  | _, [] => true
  | second, [] :: rest => escapesKnown (!second) rest
  | second, (c :: _) :: rest =>
    (second || c == 'u' || c == 'U' || escapes.any (·.1 == c)) && escapesKnown false rest

/-- The character that the digits of an escape name, or as many of them as there are. -/
def numbered (digits : List Char) : Except Fault Char :=
  if digits.isEmpty || digits == ['d'] || digits == ['D'] then .error (.misuse .shortText)
  else
    match digitsIn? 16 digits with
    | some n =>
      if (0xD800 ≤ n ∧ n ≤ 0xDFFF) ∨ 0x10FFFF < n then .error .malformed else .ok (Char.ofNat n)
    | none => .error .malformed

/-- Puts characters in place of numbered escapes, `before` having been read.  An escape whose
backslash is itself escaped stays. -/
def joinNumbered (letter : Char) (width : Nat) (before : List Char) (escaped : Bool) :
    List (List Char) → Except Fault (List Char)
  | [] => .ok before
  | piece :: rest =>
    if escaped then
      joinNumbered letter width (before ++ '\\' :: letter :: piece) (endsEscaped piece) rest
    else do
      let c ← numbered (piece.take width)
      joinNumbered letter width (before ++ c :: piece.drop width) false rest

/-- A text with characters in place of the escapes that name them by number. -/
def readNumbered (letter : Char) (width : Nat) (cs : List Char) : Except Fault (List Char) :=
  match splitAtWord ['\\', letter] cs with
  | [] => .ok cs
  | first :: rest => joinNumbered letter width first (endsEscaped first) rest

/-- A text with characters in place of the escapes that name them by letter. -/
def readLettered : List Char → Option (List Char)
  | '\\' :: c :: rest =>
    match escapes.find? (·.1 == c) with
    | some e => (readLettered rest).map (e.2 :: ·)
    | none =>
      if c = '\\' then (readLettered rest).map ('\\' :: ·)
      else if c = 'u' ∨ c = 'U' then (readLettered rest).map fun tail => '\\' :: c :: tail
      else none
  | c :: rest => (readLettered rest).map (c :: ·)
  | [] => some []

/-- Whether a text stands between triple quotes, given the pieces between quotes after the opening
one. -/
def isTripled : List (List Char) → Bool
  | [] :: [] :: _ => true
  | _ => false

/-- Whether nothing follows the closing quote, of one or of three, given the same pieces. -/
def closes (pieces : List (List Char)) : Bool :=
  closesOnce (isTripled pieces) false 0 (if isTripled pieces then pieces.drop 2 else pieces)

/-- A text between single or triple quotes.  Backslashes mean something between double quotes
only. -/
def readText (quote : Char) (v : List Char) : Except Fault String := do
  require (closes (splitAtMark quote (v.drop 1)))
  let v ←
    if quote = '\x22' then do
      require (escapesKnown false ((splitAtMark '\\' v).drop 1))
      orMalformed (readLettered (← readNumbered 'U' 8 (← readNumbered 'u' 4 v)))
    else pure v
  let tripled :=
    match v with
    | [_, b] => b == quote
    | _ :: b :: c :: _ => b == quote && b == c
    | _ => false
  return String.ofList (trim 1 (if tripled then trim 2 v else v))

end BundleReach.Toml
