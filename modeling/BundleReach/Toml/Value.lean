import BundleReach.Table
import BundleReach.Toml.Fault
import BundleReach.Toml.Moment

/-!
# Values of a settings file

* `Toml.Value`, with `Toml.Value.sort`, by which the items of a list must agree.
* `Toml.Value.enter` and `Toml.Value.last` — the ways from a value to one within it.
* `Toml.Loader` — what loads the table that a settings file holds.
-/

namespace BundleReach.Toml

open Numeral (Double)

/-- A value of a settings file. -/
inductive Value where
  | bool (b : Bool)
  | int (i : Int)
  | float (d : Double)
  | text (s : String)
  | day (d : Day)
  | moment (m : Moment)
  | clock (t : Clock)
  | list (items : List Value)
  /-- A table under a heading, or begun by a key with dots. -/
  | table (entries : List (String × Value))
  /-- A table in braces. -/
  | braced (entries : List (String × Value))
  deriving Repr, Inhabited

/-- What items of one list have in common. -/
inductive ValueSort where
  | bool
  | int
  | float
  | text
  /-- Days, with or without a time of day. -/
  | date
  | clock
  | list
  | table
  deriving DecidableEq, Repr

namespace Value

def sort : Value → ValueSort
  | bool _ => .bool
  | int _ => .int
  | float _ => .float
  | text _ => .text
  | day _ | moment _ => .date
  | clock _ => .clock
  | list _ => .list
  | table _ | braced _ => .table

/-- What a value is called in messages. -/
def typeName : Value → String
  | bool _ => "bool"
  | int _ => "int"
  | float _ => "float"
  | text _ => "str"
  | day _ => "datetime.date"
  | moment _ => "datetime.datetime"
  | clock _ => "datetime.time"
  | list _ => "list"
  | table _ => "dict"
  | braced _ => "DynamicInlineTableDict"

/-- The entries of a table. -/
def entries? : Value → Option (Table String Value)
  | table entries | braced entries => some entries
  | _ => none

def text? : Value → Option String
  | text s => some s
  | _ => none

/-- Writes a value into a table. -/
def put (v : Value) (name : String) (w : Value) : Value :=
  match v with
  | table entries => table (Table.put name w entries)
  | braced entries => braced (Table.put name w entries)
  | other => other

/-- Why a name leads nowhere from a value that is no table. -/
def misuseOfName (name : String) : Value → Misuse
  | list _ => .nameInList
  | text s => if Text.holds name s then .nameInText else .textChange
  | v => .noContainer v.typeName

/-- The value that a name leads to; in a table, a name that is missing leads to a new table. -/
def enter (name : String) (v : Value) : Except Fault Value :=
  match v.entries? with
  | some entries => .ok ((Table.find? name entries).getD (.table []))
  | none => .error (.misuse (v.misuseOfName name))

/-- The last item of a value that is no table. -/
def last : Value → Except Fault Value
  | list items =>
    match items.getLast? with
    | some v => .ok v
    | none => .error (.misuse .shortList)
  | text s =>
    match s.toList.getLast? with
    | some c => .ok (.text (String.singleton c))
    | none => .error (.misuse .shortText)
  | v => .error (.misuse (.noItems v.typeName))

end Value

/-- What loads settings files: the table that the bytes of a file hold. -/
abbrev Loader := Text.Bytes → Except LoadFault (Table String Value)

end BundleReach.Toml
