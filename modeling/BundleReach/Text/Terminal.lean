/-!
# Terminal codes

A terminal takes some characters for orders, to colour what follows or to move.  Such a code is an
escape character and an opening bracket, then semicolons, question marks and digits, and a letter.
What is printed to be read by other programs goes without them.

Main definition: `withoutCodes`.
-/

namespace BundleReach.Text

/-- May this character stand between the bracket and the letter of a code? -/
def isCodeArgument (c : Char) : Bool := c == ';' || c == '?' || c.isDigit

/-- The number of characters of the code that a text begins with, zero if it begins with none. -/
def codeLength : List Char → Nat
  | '\x1b' :: '[' :: rest =>
    match rest.dropWhile isCodeArgument with
    | c :: _ => if c.isAlpha then 3 + (rest.takeWhile isCodeArgument).length else 0
    | [] => 0
  | _ => 0

/-- Leaves the codes out, and before that as many characters as are left of one. -/
def leaveOutCodes : Nat → List Char → List Char
  | _, [] => []
  | left + 1, _ :: rest => leaveOutCodes left rest
  | 0, c :: rest =>
    match codeLength (c :: rest) with
    | 0 => c :: leaveOutCodes 0 rest
    | n + 1 => leaveOutCodes n rest

/-- A text without its terminal codes. -/
def withoutCodes (s : String) : String := String.ofList (leaveOutCodes 0 s.toList)

end BundleReach.Text
