import BundleReach.Text.Alphanumeric
import BundleReach.Toml.Ends
import BundleReach.Toml.Fault

/-!
# Lines of a settings file

A settings file is a row of lines, but a list may go over several of them, and so may a text between
triple quotes.  Laying a file out takes its comments away and joins the lines of each list, so that
every line is a heading, an entry or a part of a long text.

Main definition: `layOut`.
-/

namespace BundleReach.Toml

/-- Where the scan stands with regard to the key at the start of a line. -/
inductive KeyState where
  | outside
  | within
  /-- After a part of the key, where a dot or the equals sign must come. -/
  | after
  deriving DecidableEq

/-- The brackets that hold a heading. -/
inductive Heading where
  | none
  | table
  | tableList
  deriving DecidableEq

/-- The state of a scan. -/
structure Layout where
  /-- Open brackets of lists. -/
  depth : Int := 0
  /-- The quote that an open text began with. -/
  quote : Option Char := none
  /-- Whether a text between triple quotes is open. -/
  long : Bool := false
  heading : Heading := .none
  lineStart : Bool := true
  key : KeyState := .outside
  /-- Whether the key has a dot. -/
  dotted : Bool := false
  comment : Bool := false
  /-- What has been laid out, last character first. -/
  written : List Char := []
  /-- The whole file, last character first.  What comes before the first character is the last. -/
  ring : List Char := []

/-- Characters that stand in a key without quotes. -/
def isKeyChar (c : Char) : Bool := Text.isAlphanumeric c || c == '_' || c == '-'

namespace Layout

/-- What comes before this place, last character first. -/
def before (s : Layout) : List Char := s.written ++ s.ring

/-- The quotes before this place that are like the given one: none, one, or two and more. -/
def likeBefore (s : Layout) (q : Char) : Nat := ((s.before.take 2).takeWhile (· == q)).length

/-- Goes on after a part of a key ended, if a further part comes next. -/
def resume (s : Layout) (next : Option Char) : Except Fault Layout :=
  match next with
  | none => .error (.misuse .shortList)
  | some c => .ok (if isBlankChar c || c == '.' then s else { s with key := .within })

/-- A character of a key. -/
def keyStep (s : Layout) (c : Char) (next : Option Char) : Except Fault Layout :=
  let kept : Layout := { s with written := c :: s.written }
  let ended : Except Fault Layout :=
    if c = '=' then .ok { kept with key := .outside, dotted := false } else .error .malformed
  let escaped := (s.written.takeWhile (· == '\\')).length % 2 == 1
  if c = '\n' then .error .malformed
  else
    match s.quote, s.key with
    | some q, _ =>
      if c = q && !escaped then .ok { kept with key := .after, quote := none } else .ok kept
    | none, .within =>
      if isBlankChar c then .ok { kept with key := .after }
      else if c = '.' then .ok { kept with dotted := true }
      else if isKeyChar c then .ok kept
      else if s.dotted && s.written.head? == some '.' && (c == '\x22' || c == '\x27') then
        .ok { kept with quote := some c }
      else ended
    | none, _ =>
      if isBlankChar c then if s.dotted then kept.resume next else .ok kept
      else if c = '.' then ({ kept with dotted := true } : Layout).resume next
      else ended

/-- A quote outside keys: it opens a text or closes one. -/
def quoteStep (s : Layout) (c : Char) : Layout :=
  let alike := s.likeBefore c
  let escapes := ((s.before.drop alike).takeWhile (· == '\\')).length
  let escaped := c == '\x22' && alike != 1 && escapes % 2 == 1
  let toggled (isOpen : Bool) : Option Char := if isOpen then some c else none
  if escaped then { s with quote := toggled s.quote.isSome }
  else if alike = 2 then { s with long := !s.long, quote := toggled (!s.long) }
  else { s with quote := toggled s.quote.isNone }

/-- A bracket outside texts. -/
def bracketStep (s : Layout) (c : Char) (next : Option Char) : Layout :=
  if c = '[' then
    if s.heading ≠ .none then s
    else if s.lineStart then
      { s with heading := if next = some '[' then .tableList else .table }
    else { s with depth := s.depth + 1 }
  else
    match s.heading with
    | .table => { s with heading := .none }
    | .tableList => if s.written.head? = some ']' then { s with heading := .none } else s
    | .none => { s with depth := s.depth - 1 }

/-- The end of a line.  Within a long text a line end right after the opening quotes is no part of
the text: the quotes move up to take its place. -/
def lineEndStep (s : Layout) : Except Fault Layout :=
  if s.quote.isSome || s.long then
    if !s.long then .error .malformed
    else
      match s.written with
      | a :: b :: rest =>
        if (a == '\x22' || a == '\x27') && a == b then
          let rest := match rest with
            | c :: more => if c = a then ' ' :: more else c :: more
            | [] => []
          .ok { s with written := a :: a :: b :: rest }
        else .ok { s with written := '\n' :: s.written }
      | _ => .ok { s with written := '\n' :: s.written }
  else if s.depth ≠ 0 then .ok { s with written := ' ' :: s.written }
  else .ok { s with written := '\n' :: s.written, lineStart := true }

/-- The first character of a line that is not blank begins a key, unless it begins a heading. -/
def beginLine (s : Layout) (c : Char) : Except Fault Layout :=
  let kept : Layout := { s with written := c :: s.written }
  if s.lineStart && c != ' ' && c != '\t' then
    if s.heading ≠ .none then .ok { kept with lineStart := false }
    else if c = '=' then .error .malformed
    else .ok { kept with lineStart := false, key := .within }
  else .ok kept

/-- A character outside keys. -/
def valueStep (s : Layout) (c : Char) (next : Option Char) : Except Fault Layout :=
  if s.comment && c != '\n' then .ok { s with written := ' ' :: s.written }
  else
    let s := { s with comment := false }
    if (c = '\x27' ∧ s.quote ≠ some '\x22') ∨ (c = '\x22' ∧ s.quote ≠ some '\x27') then
      (s.quoteStep c).beginLine c
    else if c = '#' ∧ s.quote = none ∧ s.heading = .none then
      .ok { s with comment := true, written := ' ' :: s.written }
    else if (c = '[' ∨ c = ']') ∧ s.quote = none then (s.bracketStep c next).beginLine c
    else if c = '\n' then s.lineEndStep
    else s.beginLine c

/-- A character of the file. -/
def step (s : Layout) (c : Char) (next : Option Char) : Except Fault Layout :=
  if s.key = .outside then s.valueStep c next else s.keyStep c next

/-- Goes through the rest of a file. -/
def run (s : Layout) : List Char → Except Fault Layout
  | [] => if s.key = .outside ∧ s.quote = none then .ok s else .error .malformed
  | c :: rest => do run (← s.step c rest.head?) rest

end Layout

/-- The lines of a file, its comments gone and its lists on one line each.  A file with a key that
lacks its value, or with a text that does not end, has none. -/
def layOut (cs : List Char) : Except Fault (List Char) :=
  (Layout.run { ring := cs.reverse } cs).map fun s => s.written.reverse

end BundleReach.Toml
