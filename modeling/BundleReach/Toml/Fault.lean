import BundleReach.Text.Utf8

/-!
# Faults of a settings file

A file that breaks the format is malformed.  Some files keep to it in every line and yet put a
value to a use that it does not have, for instance by a heading for a table within a number.

Main definitions: `Fault` for a text, `LoadFault` for a file, and `Misuse.message`.
-/

namespace BundleReach.Toml

/-- A use of something that it does not have. -/
inductive Misuse where
  /-- A character beyond the end of a text. -/
  | shortText
  /-- An item beyond the end of a list. -/
  | shortList
  /-- A name is looked for in a value of the given type, which holds none. -/
  | noContainer (type : String)
  /-- The last item of a value of the given type, which has none. -/
  | noItems (type : String)
  /-- A name in a text. -/
  | nameInText
  /-- A name in a list. -/
  | nameInList
  /-- A name that is written into a text. -/
  | textChange
  /-- One more table for a value of the given type, which is no list. -/
  | noList (type : String)
  /-- The value of an entry that has none. -/
  | noValue
  deriving DecidableEq, Repr

def Misuse.message : Misuse → String
  | shortText => "string index out of range"
  | shortList => "list index out of range"
  | noContainer type => "argument of type '" ++ type ++ "' is not iterable"
  | noItems type => "'" ++ type ++ "' object is not subscriptable"
  | nameInText => "string indices must be integers, not 'str'"
  | nameInList => "list indices must be integers or slices, not str"
  | textChange => "'str' object does not support item assignment"
  | noList type => "'" ++ type ++ "' object has no attribute 'append'"
  | noValue => "cannot access local variable 'value' where it is not associated with a value"

/-- Why a settings file cannot be read. -/
inductive Fault where
  | malformed
  | misuse (m : Misuse)
  deriving DecidableEq, Repr

/-- Why a settings file cannot be loaded. -/
inductive LoadFault where
  /-- The file breaks the format. -/
  | malformed (reason : String)
  /-- The file is no text. -/
  | badText (fault : Text.DecodeError)
  | misuse (m : Misuse)
  deriving DecidableEq, Repr

/-- What is there, or else the file is malformed. -/
def orMalformed {α : Type} : Option α → Except Fault α
  | some a => .ok a
  | none => .error .malformed

/-- A condition that a well-formed file meets. -/
def require (p : Bool) : Except Fault Unit := if p then .ok () else .error .malformed

end BundleReach.Toml
