import BundleReach.Numeral.Digit
import BundleReach.Numeral.Double
import BundleReach.Text.Alphanumeric
import BundleReach.Text.Piece
import BundleReach.Toml.Ends

/-!
# Numbers of a settings file

* `readWhole` — whole numbers, also in base two, eight and sixteen.
* `readFloat` — numbers with a fraction or an exponent, and the words for those that are not finite.
* `isTidy` — whether zeros and underscores stand where they may.
-/

namespace BundleReach.Toml

open Numeral (Double digitsIn?)

/-- A sign and what follows it. -/
def signOf : List Char → Bool × List Char
  | '-' :: rest => (true, rest)
  | '+' :: rest => (false, rest)
  | cs => (false, cs)

/-- The characters of a number, blanks around it gone and the decimal digits of all scripts written
alike. -/
def plainNumeral (cs : List Char) : List Char :=
  (strip cs).map fun c => ((Text.decimalDigit? c).map Nat.digitChar).getD c

/-- Digits without the single underscores between them; none if one stands elsewhere. -/
def withoutGroupMarks : List Char → Option (List Char)
  | [] => some []
  | '_' :: _ => none
  | c :: '_' :: d :: rest =>
    if c.isDigit && d.isDigit then (withoutGroupMarks (d :: rest)).map (c :: ·) else none
  | c :: rest => (withoutGroupMarks rest).map (c :: ·)

/-- Whole numbers of more decimal digits than this are refused. -/
def longestNumber : Nat := 4300

/-- The number that decimal digits write. -/
def decimalIn? (ds : List Char) : Option Nat :=
  if longestNumber < ds.length then none else digitsIn? 10 ds

/-- A whole number, in base ten without leading zeros, or in another base after a mark. -/
def readWhole (cs : List Char) : Option Int := do
  let (negative, digits) := signOf (plainNumeral cs)
  let n ←
    match digits with
    | '0' :: mark :: rest =>
      if mark = 'x' ∨ mark = 'X' then digitsIn? 16 rest
      else if mark = 'o' ∨ mark = 'O' then digitsIn? 8 rest
      else if mark = 'b' ∨ mark = 'B' then digitsIn? 2 rest
      else if (mark :: rest).all (· == '0') then some 0
      else none
    | _ => decimalIn? digits
  return if negative then -(n : Int) else n

/-- A number with a fraction, an exponent or both, or a word for one that is not finite. -/
def readFloat (cs : List Char) : Option Double := do
  let (negative, rest) := signOf (← withoutGroupMarks (plainNumeral cs))
  let lower := rest.map Char.toLower
  if lower = "nan".toList then return .notANumber
  if lower = "inf".toList ∨ lower = "infinity".toList then return .infinite negative
  let whole := rest.takeWhile Char.isDigit
  let rest := rest.drop whole.length
  let (fraction, rest) :=
    match rest with
    | '.' :: more => (more.takeWhile Char.isDigit, more.dropWhile Char.isDigit)
    | _ => ([], rest)
  let exponent ←
    match rest with
    | [] => some 0
    | e :: more =>
      if e = 'e' ∨ e = 'E' then
        let (below, digits) := signOf more
        (digitsIn? 10 digits).map fun n => if below then -(n : Int) else n
      else none
  let digits ← digitsIn? 10 (whole ++ fraction)
  return Double.ofDecimal negative digits (exponent - fraction.length)

/-- A number with the other sign, zero without one. -/
def negate : Double → Double
  | .finite s m e => if m = 0 then .finite false m e else .finite (!s) m e
  | .infinite s => .infinite (!s)
  | .notANumber => .notANumber

/-- Is a number written tidily?  Zeros do not lead it, and underscores stand between two digits of
it. -/
def isTidy (cs : List Char) : Bool :=
  let v := strip cs
  let begins (marks : List Char) (cs : List Char) : Bool :=
    match cs with
    | '0' :: c :: _ => !marks.contains c
    | _ => false
  if v.isEmpty || v.head? == some '_' || v.getLast? == some '_' then false
  else if Text.isWithin ['_', '.'] v || Text.isWithin ['.', '_'] v then false
  else if v.length = 1 then true
  else if begins ['.', 'o', 'b', 'x'] v then false
  else
    let rest := if v.head? == some '+' || v.head? == some '-' then v.drop 1 else []
    if begins ['.'] rest then false
    else !Text.isWithin ['_', '_'] (if rest.isEmpty then v else rest)

end BundleReach.Toml
