import BundleReach.Toml.Literal

/-!
# Pieces of lists and of tables in braces

The items of a list and the entries of a table in braces stand between commas.  A comma may also
stand within an item, so that it is one piece and not two.

Main definitions: `listPieces`, `braceEntries`.
-/

namespace BundleReach.Toml

open Text (splitAtMark)

/-! ## Lists -/

/-- Whether a piece of a list is a whole text, and not one cut at a comma within it. -/
def isWholeText (piece : List Char) : Bool :=
  match piece with
  | [] => true
  | c :: _ =>
    piece.getLast? == some c && !endsEscaped (trim 1 piece) &&
      !(match piece, piece.reverse with
        | a :: b :: d :: _, _ :: y :: x :: _ => a == b && b == d && y != a && x != a
        | _, _ => false)

/-- Joins the pieces of texts that were cut at commas within them, `piece` with the first of the
others if it is not whole.  The last of them need not be whole unless it has been joined. -/
def joinTexts (joined : Bool) (piece : List Char) :
    List (List Char) → Except Fault (List (List Char))
  | [] =>
    if joined && !isWholeText (strip piece) then .error (.misuse .shortList) else .ok [piece]
  | next :: rest =>
    if isWholeText (strip piece) then (joinTexts false next rest).map (piece :: ·)
    else joinTexts true (piece ++ ',' :: next) rest

/-- The pieces between commas outside brackets. -/
def outerPieces : Int → List Char → List (List Char)
  | _, [] => [[]]
  | depth, c :: rest =>
    if c = ',' ∧ depth = 0 then [] :: outerPieces depth rest
    else
      let depth := if c = '[' then depth + 1 else if c = ']' then depth - 1 else depth
      match outerPieces depth rest with
      | [] => [[c]]
      | piece :: pieces => (c :: piece) :: pieces

/-- The tables in braces seen so far in a list: those that are closed, and the one that is open with
its characters in reverse order. -/
structure BraceScan where
  closed : List (List Char) := []
  current : Option (List Char) := some []
  depth : Nat := 0
  inText : Bool := false
  /-- The last character closed a table; the next one belongs to nothing. -/
  justClosed : Bool := false

namespace BraceScan

/-- One more character of the list.  Any quote begins a text or ends one, unless it is escaped. -/
def step (s : BraceScan) (c : Char) : BraceScan :=
  match s.current with
  | none =>
    if s.justClosed then { s with justClosed := false }
    else if c = '\x7b' then { s with current := some ['\x7b'] } else s
  | some before =>
    let quote := c == '\x22' || c == '\x27'
    let escaped := (before.takeWhile (· == '\\')).length % 2 == 1
    let inText := if quote then !s.inText || escaped else s.inText
    let kept : BraceScan := { s with current := some (c :: before), inText := inText }
    if inText then kept
    else if c = '\x7b' then { kept with depth := s.depth + 1 }
    else if c = '\x7d' then
      if 1 < s.depth then { kept with depth := s.depth - 1 }
      else { kept with
        closed := s.closed ++ [(c :: before).reverse], current := none, depth := 1
        justClosed := true }
    else kept

end BraceScan

/-- The tables in braces among the characters of a list, what stands between them passed over. -/
def braceGroups (cs : List Char) : List (List Char) := (cs.foldl BraceScan.step {}).closed

/-- Whether a list begins with a text. -/
def beginsWithText (a : List Char) : Bool :=
  match strip (trim 1 a) with
  | c :: _ => c == '\x22' || c == '\x27'
  | [] => false

/-- The pieces of a list that write its items. -/
def listPieces (a : List Char) : Except Fault (List (List Char)) :=
  let inside := trim 1 a
  if inside.contains '[' && (strip (inside.takeWhile (· != '['))).isEmpty then
    .ok (outerPieces 0 inside)
  else if (strip inside).head? = some '\x7b' then .ok (braceGroups inside)
  else
    match splitAtMark ',' inside with
    | piece :: rest =>
      if beginsWithText a then joinTexts false piece rest else .ok (piece :: rest)
    | [] => .ok []

/-! ## Tables in braces -/

/-- Whether a piece of a table in braces holds the whole of an entry's value. -/
def isWholeEntry (piece : List Char) : Except Fault Bool := do
  require (piece.contains '=')
  let v := strip ((piece.dropWhile (· != '=')).drop 1)
  match v, v.getLast? with
  | c :: _, some last =>
    return (c == last && (c == '\x22' || c == '\x27')) || c == '-' || c.isDigit ||
      v == "true".toList || v == "false".toList || (c == '[' && last == ']') ||
      (c == '\x7b' && last == '\x7d')
  | _, _ => .error (.misuse .shortText)

/-- The entries of a table in braces, those cut at commas within their values joined again. -/
def joinEntries (piece : List Char) : List (List Char) → Except Fault (List (List Char))
  | [] => do
    require (← isWholeEntry piece)
    return [piece]
  | next :: rest => do
    if ← isWholeEntry piece then return piece :: (← joinEntries next rest)
    else joinEntries (piece ++ ',' :: next) rest

/-- The entries of a table in braces. -/
def braceEntries (v : List Char) : Except Fault (List (List Char)) :=
  match splitAtMark ',' (trim 1 v) with
  | [] => .ok []
  | [piece] => if (strip piece).isEmpty then .ok [] else joinEntries piece []
  | piece :: rest => joinEntries piece rest

end BundleReach.Toml
