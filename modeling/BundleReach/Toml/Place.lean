import BundleReach.Toml.Value

/-!
# Places in a settings file

A place is a value within another one, given by the steps that lead there.

* `Value.follow` — the value at a place.
* `Value.changeAt` — a value with the one at a place changed.
-/

namespace BundleReach.Toml

/-- A step from a value to one within it. -/
inductive Step where
  /-- To what a name of a table stands for. -/
  | entry (name : String)
  /-- To the last item of a list. -/
  | last
  deriving DecidableEq, Repr

namespace Value

/-- The value that a step leads to. -/
def within (v : Value) : Step → Except Fault Value
  | .entry name => v.enter name
  | .last => v.last

/-- A value with another one where a step leads. -/
def putBack (v inner : Value) : Step → Value
  | .entry name => v.put name inner
  | .last =>
    match v with
    | list items => list (items.dropLast ++ [inner])
    | other => other

/-- The value at a place.  In a table, a name that is missing leads to a new table. -/
def follow (v : Value) (place : List Step) : Except Fault Value := place.foldlM within v

/-- Changes the value at a place, making the tables that are missing on the way. -/
def changeAt (f : Value → Except Fault Value) : List Step → Value → Except Fault Value
  | [], v => f v
  | step :: rest, v => do
    let inner ← changeAt f rest (← v.within step)
    return v.putBack inner step

end Value

end BundleReach.Toml
