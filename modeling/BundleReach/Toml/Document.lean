import BundleReach.Toml.Entry
import BundleReach.Toml.Layout

/-!
# Settings files

A settings file is a table.  Its lines are entries and headings; a heading names the table that the
entries below it belong to, or one more table of a list of tables.  A text between triple quotes
goes on over lines until one ends with those quotes.

Main definitions: `Toml.read` for a text and `Toml.load` for the bytes of a file.
-/

namespace BundleReach.Toml

open Text (splitAtMark splitAtWord)

/-- The table under construction: the whole of it, where entries go now, and the names of tables
that were made only on the way to others. -/
structure Draft where
  whole : Value := .table []
  place : List Step := []
  implied : List String := []
  long : Option LongText := none

/-! ## Headings -/

/-- A name of a heading, and what is left of the parts of the heading between dots.  A quoted name
may have been cut at dots within it. -/
def quotedName (part : List Char) :
    List (List Char) → Except Fault (List Char × List (List Char))
  | [] =>
    let name := strip part
    if 1 < name.length ∧ name.head? = name.getLast? then .ok (trim 1 name, [])
    else .error .malformed
  | next :: more =>
    let name := strip part
    if 1 < name.length ∧ name.head? = name.getLast? then .ok (trim 1 name, next :: more)
    else quotedName (part ++ '.' :: next) more

/-- The names in a heading, given the parts between its dots. -/
def headingNames : Nat → List (List Char) → Except Fault (List String)
  | fuel + 1, part :: rest => do
    let part := strip part
    if part.head? = some '\x22' ∨ part.head? = some '\x27' then
      let (name, rest) ← quotedName part rest
      return String.ofList name :: (← headingNames fuel rest)
    else
      require (!part.isEmpty && part.all fun c => c.isAlphanum || c == '_' || c == '-')
      return String.ofList part :: (← headingNames fuel rest)
  | _, _ => .ok []

/-- What a name of a heading is given if it is new. -/
def newTable (listed isLast : Bool) : Value :=
  if listed && isLast then .list [.table []] else .table []

namespace Draft

/-- Writes a value at a name of the table at a place. -/
def write (d : Draft) (place : List Step) (name : String) (v : Value) : Except Fault Draft := do
  let whole ← d.whole.changeAt (fun table => .ok (table.put name v)) place
  return { d with whole := whole }

/-- Names a table within the one at the draft's place.  The last name of a heading may be new, or
that of a table which was only implied before, or, in a heading for lists, that of a list. -/
def nameTable (d : Draft) (listed isLast : Bool) (name : String)
    (entries : Table String Value) : Except Fault Draft :=
  match Table.find? name entries with
  | none =>
    let implied := if isLast then d.implied else d.implied ++ [name]
    ({ d with implied := implied } : Draft).write d.place name (newTable listed isLast)
  | some v =>
    if !isLast then .ok d
    else if name ∈ d.implied then
      if listed then .error .malformed else .ok { d with implied := d.implied.erase name }
    else if listed then
      match v with
      | .list items => d.write d.place name (.list (items ++ [.table []]))
      | v => .error (.misuse (.noList v.typeName))
    else .error .malformed

/-- Names a table within the last one of the list at the draft's place, where it may be there
already. -/
def nameInLast (d : Draft) (listed isLast : Bool) (name : String) (v : Value) :
    Except Fault Draft := do
  let table ← v.last
  match table.entries? with
  | none => .error (.misuse (table.misuseOfName name))
  | some entries =>
    if Table.has name entries then return d
    else d.write (d.place ++ [.last]) name (newTable listed isLast)

/-- Enters a table that a heading names.  Where headings for lists lead to a list, its last table is
meant. -/
def enter (d : Draft) (listed isLast : Bool) (name : String) : Except Fault Draft := do
  require (!name.isEmpty)
  let above ← d.whole.follow d.place
  let (d, place) ←
    match above.entries? with
    | some entries => do
      pure (← d.nameTable listed isLast name entries, d.place ++ [.entry name])
    | none => do
      pure (← d.nameInLast listed isLast name above, d.place ++ [.last, .entry name])
  let v ← d.whole.follow place
  if listed && v.entries?.isNone then
    let _ ← v.last
    return { d with place := place ++ [.last] }
  else return { d with place := place }

/-- Enters the tables that a heading names one after the other. -/
def enterAll (listed : Bool) (d : Draft) : List String → Except Fault Draft
  | [] => .ok d
  | name :: rest => do enterAll listed (← d.enter listed rest.isEmpty name) rest

/-- A line that begins with a bracket. -/
def headingLine (d : Draft) (line : List Char) : Except Fault Draft := do
  let listed := (line.drop 1).head? == some '['
  let inside := line.drop (if listed then 2 else 1)
  let mark := if listed then [']', ']'] else [']']
  let pieces := splitAtWord mark inside
  let n := marksUntil mark false (quoteStretches inside)
  require (n < pieces.length && (strip (mark.intercalate (pieces.drop n))).isEmpty)
  let parts := splitAtMark '.' (mark.intercalate (pieces.take n))
  let names ← headingNames parts.length parts
  enterAll listed { d with place := [] } names

/-! ## Entries and long texts -/

/-- A line with entries in braces, which belong to the table there is. -/
def bracedLine (d : Draft) (line : List Char) : Except Fault Draft := do
  require (line.getLast? == some '\x7d')
  let whole ← d.whole.changeAt (fun level => addBraced level line) d.place
  return { d with whole := whole }

/-- A line with an entry. -/
def entryLine (d : Draft) (line : List Char) : Except Fault Draft := do
  let (level, long) ← addEntry readValue (← d.whole.follow d.place) line
  let whole ← d.whole.changeAt (fun _ => .ok level) d.place
  return { d with whole := whole, long := long }

/-- A line within a long text, which it ends if it ends with the quotes, or with the bracket, that
the text began with. -/
def longLine (d : Draft) (l : LongText) (line : List Char) : Except Fault Draft := do
  let written := l.written ++ line
  let start := written.head?
  if start == some '[' && line.isEmpty then .error (.misuse .shortText)
  else
    let ends :=
      if start = some '[' then line.getLast? == some ']'
      else 2 < line.length && (line.reverse.take 3).all (some · == start)
    if ends then
      let v ← readValue true written
      let d ← d.write d.place l.name v
      return { d with long := none }
    else return { d with long := some (.goOn l.name written) }

/-- A line of a file that has been laid out. -/
def line (d : Draft) (line : List Char) : Except Fault Draft :=
  match d.long with
  | some l =>
    let line := if l.joined || !l.written.contains '\n' then strip line else line
    if line.isEmpty && l.joined then .ok d else d.longLine l line
  | none =>
    let line := strip line
    match line with
    | [] => .ok d
    | '[' :: _ => d.headingLine line
    | '\x7b' :: _ => d.bracedLine line
    | _ => if line.contains '=' then d.entryLine line else .ok d

end Draft

/-- Reads a settings file. -/
def read (cs : List Char) : Except Fault (Table String Value) := do
  let laidOut ← layOut cs
  let d ← (splitAtMark '\n' laidOut).foldlM Draft.line {}
  return d.whole.entries?.getD []

/-- Loads a settings file. -/
def load : Loader := fun bytes =>
  match Text.decode bytes with
  | .error fault => .error (.badText fault)
  | .ok cs =>
    match read (Text.unifyLineEnds cs) with
    | .error .malformed => .error (.malformed "not in the format of settings files")
    | .error (.misuse m) => .error (.misuse m)
    | .ok whole => .ok whole

end BundleReach.Toml
