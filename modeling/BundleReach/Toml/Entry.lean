import BundleReach.Toml.Key
import BundleReach.Toml.Pieces
import BundleReach.Toml.Place

/-!
# Entries of a settings file

An entry writes a value into a table.  Its key leads there, making the tables that are missing on
the way.  Lists hold values of one sort; a table in braces is made of entries between commas.

* `readValue` — the value that characters write.
* `addEntry`, `addBraced` — a table with an entry, or with the entries between braces, written into
  it.
-/

namespace BundleReach.Toml

open Text (splitAtMark)

/-! ## Long texts -/

/-- A text between triple quotes that has not ended, with the name it belongs to.  `joined` tells
that a backslash ended its last line, so that the next one goes on without a line end. -/
structure LongText where
  name : String
  written : List Char
  joined : Bool

/-- Goes on to the next line of a long text. -/
def LongText.goOn (name : String) (written : List Char) : LongText :=
  if endsEscaped written then ⟨name, written.dropLast, true⟩ else ⟨name, written ++ ['\n'], false⟩

/-- Joins pieces of a list, the last one first, up to the one in which its last text begins. -/
def lastText (piece : List Char) : List (List Char) → Except Fault (List Char)
  | [] => .ok piece
  | before :: more =>
    match piece with
    | [] => .error (.misuse .shortText)
    | c :: _ =>
      if c = '\x22' ∨ c = '\x27' then .ok piece else lastText (before ++ ',' :: piece) more

/-- Whether characters begin with triple quotes that they do not end with. -/
def isLong (v : List Char) : Except Fault Bool :=
  match v with
  | a :: rest =>
    if a ≠ '\x22' ∧ a ≠ '\x27' then .ok false
    else
      match rest with
      | [] => .error (.misuse .shortText)
      | b :: rest =>
        if b ≠ a then .ok false
        else
          match rest with
          | [] => .error (.misuse .shortText)
          | c :: _ => .ok (c == a && !(5 < v.length && (v.reverse.take 3).all (· == a)))
  | [] => .error (.misuse .shortText)

/-- Whether a value begins a text between triple quotes that goes on after its line, be it an item
of a list. -/
def beginsLong (v : List Char) : Except Fault Bool := do
  if v.length < 3 then return false
  else if v.head? == some '[' && v.getLast? != some ']' && beginsWithText v then
    match (splitAtMark ',' (strip (v.drop 1))).reverse with
    | piece :: before => isLong (← lastText piece before)
    | [] => return false
  else isLong v

/-! ## Writing entries -/

/-- A name in a table can be written once. -/
def requireFree (name : String) (v : Value) : Except Fault Unit :=
  require ((v.entries?.map fun t => !Table.has name t).getD false)

/-- Writes an entry into a table.  If the entry begins a long text, only the tables on the way to it
are made. -/
def addEntry (readValue : Bool → List Char → Except Fault Value) (level : Value)
    (line : List Char) : Except Fault (Value × Option LongText) := do
  let cut ← cutEntry line
  let key ← readKey cut.key
  let place := key.tables.map Step.entry
  let _ ← level.follow place
  let name ← key.last
  if ← beginsLong cut.value then
    let level ← level.changeAt (fun v => do requireFree name v; return v) place
    if name.isEmpty then .error (.misuse .noValue)
    else return (level, some (.goOn name cut.value))
  else
    let w ← readValue cut.tidy cut.value
    let level ← level.changeAt (fun v => do requireFree name v; return v.put name w) place
    return (level, none)

/-- Writes entries into a table one after the other.  None is written after one that begins a long
text. -/
def addEntries (readValue : Bool → List Char → Except Fault Value) (level : Value) :
    List (List Char) → Except Fault Value
  | [] => .ok level
  | line :: rest => do
    let (level, long) ← addEntry readValue level line
    if long.isSome then return level else addEntries readValue level rest

/-- The items of a list, which are of one sort. -/
def readItems (readItem : List Char → Except Fault Value) (sort : Option ValueSort) :
    List (List Char) → Except Fault (List Value)
  | [] => .ok []
  | piece :: rest => do
    let v ← readItem piece
    require (sort.all (· == v.sort))
    return v :: (← readItems readItem (some v.sort) rest)

/-- A value, its lists and tables nested at most `fuel` deep. -/
def readNested : Nat → Bool → List Char → Except Fault Value
  | 0, _, _ => .error .malformed
  | fuel + 1, tidy, v =>
    match v with
    | '[' :: _ => do
      let pieces := (← listPieces (strip v)).map strip
      return .list (← readItems (readNested fuel true) none (pieces.filter (!·.isEmpty)))
    | '\x7b' :: _ => do addEntries (readNested fuel) (.braced []) (← braceEntries v)
    | _ => scalar tidy v

/-- The value that characters write.  With `tidy`, if it is a number, it is known to be written
tidily. -/
def readValue (tidy : Bool) (v : List Char) : Except Fault Value :=
  readNested (v.length + 1) tidy v

/-- Writes the entries between braces into a table. -/
def addBraced (level : Value) (v : List Char) : Except Fault Value := do
  addEntries readValue level (← braceEntries v)

end BundleReach.Toml
