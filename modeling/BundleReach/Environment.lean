import BundleReach.Path.Basic
import BundleReach.Script.Tree
import BundleReach.Toml.Value

/-!
# What an audit relies on

Beside the output itself an audit relies on what it is run with: a parser of scripts, a loader of
settings files, the place of the user's settings, and how many modules may be read at once where no
settings say so.

Main definitions: `Environment` and `defaultWorkers?`.
-/

namespace BundleReach

open Toml (decimalIn? plainNumeral signOf withoutGroupMarks)

/-- What an audit is run with. -/
structure Environment where
  /-- Parses scripts. -/
  parse : Script.Parser
  /-- Loads settings files. -/
  loadToml : Toml.Loader
  /-- The user's settings file. -/
  userFile : Path
  /-- How many modules may be read at once where no settings say so. -/
  workers : Int

/-- The whole number that a text writes, in digits of any script, with underscores between digits
and blanks around it. -/
def wholeIn? (text : String) : Option Int := do
  let (negative, digits) := signOf (plainNumeral text.toList)
  let n ← decimalIn? (← withoutGroupMarks digits)
  return if negative then -(n : Int) else n

/-- How many modules may be read at once where no settings say so: the number that the user asks
for, whatever it is, or else four more than there are processors, but not above eight. -/
def defaultWorkers? (asked : Option String) (processors : Nat) : Option Int :=
  match asked with
  | some text => wholeIn? text
  | none => some (min 8 (max 1 processors + 4) : Nat)

end BundleReach
