/-!
# Words of a command line

The words after a command are options and arguments in any order.  A long option begins with two
hyphens and may bring its value after an equals sign; short options are one letter after a hyphen
and may share it.  After two hyphens alone, all words are arguments.

Main definition: `readWords`.
-/

namespace BundleReach.CommandLine

/-- An option, by its long and its short name. -/
structure OptionSpec where
  long : String
  short : Option Char := none
  takesValue : Bool := false
  deriving DecidableEq, Repr

/-- The words of a command line, sorted out: options by their long names in order, flags with an
empty value. -/
structure Words where
  options : List (String × String) := []
  arguments : List String := []
  deriving DecidableEq, Repr

namespace Words

/-- Adds an option that was read before the others. -/
def withOption (name value : String) (w : Words) : Words :=
  { w with options := (name, value) :: w.options }

/-- Adds an argument that was read before the others. -/
def withArgument (word : String) (w : Words) : Words :=
  { w with arguments := word :: w.arguments }

/-- Adds flags that were read before the options. -/
def withFlags (names : List String) (w : Words) : Words :=
  names.foldr (fun name w => w.withOption name "") w

def hasOption (w : Words) (name : String) : Bool := w.options.any (·.1 == name)

/-- The value given last for an option. -/
def lastValue (w : Words) (name : String) : Option String :=
  (w.options.reverse.find? (·.1 == name)).map Prod.snd

end Words

/-- What a word's short options are: flags, and at the end perhaps one that takes a value, which is
the rest of the word unless that is empty. -/
structure ShortOptions where
  flags : List String := []
  valued : Option (String × String) := none

/-- Reads the letters of short options; none if a letter is not known. -/
def readLetters (specs : List OptionSpec) : List Char → Option ShortOptions
  | [] => some {}
  | c :: rest => do
    let spec ← specs.find? (·.short == some c)
    if spec.takesValue then return { valued := some (spec.long, String.ofList rest) }
    let more ← readLetters specs rest
    return { more with flags := spec.long :: more.flags }

/-- A long option's name and the value after its equals sign. -/
def cutLong (word : String) : String × Option String :=
  let cs := word.toList
  let name := String.ofList (cs.takeWhile (· != '='))
  if cs.contains '=' then (name, some (String.ofList ((cs.dropWhile (· != '=')).drop 1)))
  else (name, none)

/-- What one word is. -/
inductive WordKind where
  /-- Two hyphens alone: no option follows. -/
  | lastOption
  | argument
  /-- Flags, by their long names. -/
  | flags (names : List String)
  /-- Flags and an option with its value. -/
  | whole (flags : List String) (name value : String)
  /-- Flags and an option whose value is the next word. -/
  | half (flags : List String) (name : String)
  deriving DecidableEq, Repr

/-- What a long option is. -/
def longKind (specs : List OptionSpec) (word : String) : Option WordKind := do
  let (name, given) := cutLong word
  let spec ← specs.find? (·.long == name)
  match given, spec.takesValue with
  | some value, true => return .whole [] name value
  | some _, false => none
  | none, true => return .half [] name
  | none, false => return .flags [name]

/-- What short options are. -/
def shortKind (specs : List OptionSpec) (letters : List Char) : Option WordKind := do
  let o ← readLetters specs letters
  match o.valued with
  | none => return .flags o.flags
  | some (name, "") => return .half o.flags name
  | some (name, value) => return .whole o.flags name value

/-- What a word is; none if it is an option that is not known or has a value it does not take. -/
def wordKind (specs : List OptionSpec) (word : String) : Option WordKind :=
  match word.toList with
  | ['-', '-'] => some .lastOption
  | '-' :: '-' :: _ => longKind specs word
  | '-' :: c :: more => shortKind specs (c :: more)
  | _ => some .argument

/-- Sorts out words; none if an option is not known, lacks its value or has one it does not take.
Where `interspersed` is off, the first argument ends the options. -/
def readWords (specs : List OptionSpec) (interspersed : Bool) : List String → Option Words
  | [] => some {}
  | word :: rest => do
    match ← wordKind specs word with
    | .lastOption => return { arguments := rest }
    | .argument =>
      if interspersed then return (← readWords specs interspersed rest).withArgument word
      else return { arguments := word :: rest }
    | .flags names => return (← readWords specs interspersed rest).withFlags names
    | .whole names name value =>
      return ((← readWords specs interspersed rest).withOption name value).withFlags names
    | .half names name =>
      match rest with
      | [] => none
      | value :: more =>
        return ((← readWords specs interspersed more).withOption name value).withFlags names

end BundleReach.CommandLine
