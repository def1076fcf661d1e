import BundleReach.Toml.Quoted
import BundleReach.Toml.Value

/-!
# Written values of a settings file

A value that holds no others is a truth value, a text, a day, a time of day or a number.

Main definition: `scalar`.
-/

namespace BundleReach.Toml

/-- A number: whole, unless a point, an exponent or a word makes it another. -/
def readNumber (cs : List Char) : Option Value := do
  let (negative, rest) := signOf cs
  let v := rest.filter (· != '_')
  let hasPoint := v.contains '.'
  let lower := v.map Char.toLower
  if hasPoint || (!v.contains 'x' && lower.contains 'e') then
    if hasPoint && (v.dropWhile (· != '.')).length == 1 then none
    if !(v.headD ' ').isDigit then none
    let d ← readFloat v
    return .float (if negative then negate d else d)
  else if lower = "inf".toList ∨ lower = "nan".toList then
    let d ← readFloat v
    return .float (if negative then negate d else d)
  else
    let n ← readWhole v
    return .int (if negative then -n else n)

/-- A value that holds no others.  With `tidy`, a number is known to be written tidily. -/
def scalar (tidy : Bool) (v : List Char) : Except Fault Value :=
  if v = "true".toList then .ok (.bool true)
  else if v = "false".toList then .ok (.bool false)
  else
    match v with
    | [] => .error .malformed
    | c :: _ =>
      if c = '\x22' ∨ c = '\x27' then (readText c v).map .text
      else if isTime v then orMalformed ((readClock v).map .clock)
      else
        match readDay v, readMoment v with
        | some d, _ => .ok (.day d)
        | none, some m => .ok (.moment m)
        | none, none => if tidy then orMalformed (readNumber v) else .error .malformed

end BundleReach.Toml
