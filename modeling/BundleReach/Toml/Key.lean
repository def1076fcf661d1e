import BundleReach.Toml.Literal

/-!
# Keys of a settings file

An entry is a key, an equals sign and a value.  The key may be several names with dots between them,
which lead through tables.

* `quoteStretches` — a line cut at its quotes, so that marks within quotes can be told apart.
* `cutEntry` — an entry cut into its key and its value.
* `readKey` — the names that a key is made of.
-/

namespace BundleReach.Toml

open Text (splitAtMark splitAtWord isWithin)

/-! ## Marks outside quotes -/

/-- Goes on with stretches between single quotes, the last of which is quoted if they are even in
number: it takes up pieces between double quotes until a single quote ends it. -/
def closeSingle (stretches : List (List Char)) :
    List (List Char) → List (List Char) × List (List Char)
  | [] => (stretches, [])
  | piece :: rest =>
    if stretches.length % 2 = 0 then
      let whole := stretches.getLast?.getD [] ++ '\x22' :: piece
      closeSingle (stretches.dropLast ++ splitAtMark '\x27' whole) rest
    else (stretches, piece :: rest)

/-- A line cut at its quotes: stretches outside quotes and within them by turns.  Single quotes
count up to the first stretch between double quotes. -/
def quoteStretches (line : List Char) : List (List Char) :=
  match splitAtMark '\x22' line with
  | [] => []
  | first :: rest =>
    let (before, rest) :=
      if !rest.isEmpty && first.contains '\x27' then closeSingle (splitAtMark '\x27' first) rest
      else ([], first :: rest)
    match rest with
    | [] => before
    | piece :: more => before ++ splitAtMark '\x27' piece ++ more

/-- How many marks the stretches of a line hold up to the first one outside quotes, with it. -/
def marksUntil (mark : List Char) : Bool → List (List Char) → Nat
  | _, [] => 1
  | quoted, stretch :: rest =>
    if !quoted && isWithin mark stretch then 1
    else (splitAtWord mark stretch).length - 1 + marksUntil mark (!quoted) rest

/-! ## Cutting entries -/

/-- Whether characters write a value that no blank needs to set off from the equals sign. -/
def standsAlone (v : List Char) : Bool :=
  match v with
  | [] => true
  | c :: _ =>
    c == ' ' || c == '\t' || c == '\x27' || c == '\x22' || c == '[' || c == '\x7b' ||
      strip v == "true".toList || strip v == "false".toList ||
      (readFloat v).isSome || isDate v || isTime v

/-- An entry cut at its equals sign. -/
structure CutEntry where
  key : List Char
  value : List Char
  /-- If the value is a number, is it written tidily? -/
  tidy : Bool

/-- Pieces with equals signs between them. -/
def withEquals (pieces : List (List Char)) : List Char := ['='].intercalate pieces

/-- Cuts an entry at the first of the equals signs left after which a value stands alone. -/
def cutAtLater (tidy : Bool) (before : List (List Char)) :
    List (List Char) → Except Fault CutEntry
  | [] => .error .malformed
  | piece :: after =>
    let v := withEquals (piece :: after)
    let tidy := tidy && isTidy v
    if standsAlone v then .ok ⟨strip (withEquals before), strip v, tidy⟩
    else cutAtLater tidy (before ++ [piece]) after

/-- Cuts an entry at its first equals sign outside quotes, or at a later one if no value stands
alone after that. -/
def cutEntry (line : List Char) : Except Fault CutEntry :=
  let pieces := splitAtMark '=' line
  let n := min (marksUntil ['='] false (quoteStretches line)) (pieces.length - 1)
  let v := withEquals (pieces.drop n)
  let bare := if (v.headD ' ').isDigit then v.filter (· != '_') else v
  if standsAlone bare then .ok ⟨strip (withEquals (pieces.take n)), strip bare, isTidy v⟩
  else
    let later := if n + 1 < pieces.length then n + 1 else n
    cutAtLater (isTidy v) (pieces.take later) (pieces.drop later)

/-! ## Names -/

/-- The parts of a key with dots, its quoted stretches kept whole. -/
def dottedParts (key : List Char) : List (List Char) :=
  if key.contains '\x22' || key.contains '\x27' then go false (quoteStretches key)
  else splitAtMark '.' key
where
  /-- Goes through stretches, the first of them quoted or not. -/
  go : Bool → List (List Char) → List (List Char)
    | _, [] => []
    | true, stretch :: rest => stretch :: go false rest
    | false, stretch :: rest => (splitAtMark '.' stretch).map strip ++ go true rest

/-- The names that a key is made of. -/
structure Key where
  /-- The tables that it leads through. -/
  tables : List String
  /-- What it ends with. -/
  name : List Char
  /-- Is what it ends with written between quotes? -/
  quoted : Bool

/-- The names that a key is made of. -/
def readKey (key : List Char) : Except Fault Key :=
  if key.contains '.' then
    let parts := (dottedParts key).reverse.dropWhile List.isEmpty
    match parts with
    | [] => .error (.misuse .shortList)
    | last :: before =>
      .ok ⟨(before.reverse.filter (!·.isEmpty)).map String.ofList, strip last, false⟩
  else
    match key with
    | [] => .error (.misuse .shortText)
    | q :: _ =>
      if (q = '\x22' ∨ q = '\x27') ∧ key.getLast? = some q then .ok ⟨[], trim 1 key, true⟩
      else .ok ⟨[], key, false⟩

/-- The name that a key ends with. -/
def Key.last (k : Key) : Except Fault String :=
  if k.quoted then (orMalformed (readLettered k.name)).map String.ofList
  else .ok (String.ofList k.name)

end BundleReach.Toml
