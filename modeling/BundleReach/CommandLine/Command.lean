import BundleReach.CommandLine.Words
import BundleReach.Json.Printer
import BundleReach.Report.Document
import BundleReach.Report.Dot
import BundleReach.Text.Terminal

/-!
# Commands

The program has two commands: `run` audits a build output and reports what is wrong with it, and
`export-dot` draws its module graph.  It ends with zero if nothing is wrong, with one if something
is, and with two if it was called wrongly or the output cannot be audited.

Main definitions: `Command.ofWords`, `Command.perform` and `Outcome`.
-/

namespace BundleReach.CommandLine

/-- What the program is asked to do. -/
inductive Command where
  | version
  | help
  | run (root : String) (asJson : Bool)
  | exportDot (root out focus : String)
  deriving DecidableEq, Repr

def versionText : String := "bundle-audit v0.1.0"

def helpText : String :=
  "Usage: bundle-audit run ROOT [--json] [--verbose]\n" ++
    "       bundle-audit export-dot ROOT OUT [--focus TEXT]\n" ++
    "       bundle-audit --version"

def generalOptions : List OptionSpec := [⟨"--version", some 'V', false⟩, ⟨"--help", none, false⟩]

def runOptions : List OptionSpec :=
  [⟨"--json", none, false⟩, ⟨"--verbose", some 'v', false⟩, ⟨"--help", none, false⟩]

def exportOptions : List OptionSpec := [⟨"--focus", some 'f', true⟩, ⟨"--help", none, false⟩]

/-- The command that words ask for, if they ask for one. -/
def Command.ofWords (words : List String) : Option Command := do
  let general ← readWords generalOptions false words
  match general.options.head?, general.arguments with
  | some ("--version", _), _ => return .version
  | some _, _ => return .help
  | none, "run" :: rest =>
    let w ← readWords runOptions true rest
    if w.hasOption "--help" then return .help
    match w.arguments with
    | [root] => return .run root (w.hasOption "--json")
    | _ => none
  | none, "export-dot" :: rest =>
    let w ← readWords exportOptions true rest
    if w.hasOption "--help" then return .help
    match w.arguments with
    | [root, out] => return .exportDot root out ((w.lastValue "--focus").getD "")
    | _ => none
  | none, [] => if words.isEmpty then return .help else none
  | none, _ => none

/-- How the program ended: its exit code, what it printed, what it complained of, and the file that
it wrote. -/
structure Outcome where
  code : Nat
  output : String := ""
  complaint : String := ""
  saved : Option (Path × String) := none
  deriving Repr

/-- Where the program runs: the files it sees, the folder it was started in, and what audits are run
with. -/
structure Surroundings where
  tree : FileTree
  folder : Path
  environment : Environment

/-- The end of a program that was called wrongly. -/
def misused : Outcome := { code := 2, complaint := helpText ++ "\n" }

/-- The end of a program that could not audit an output. -/
def failed (fault : AuditFault) : Outcome :=
  { code := if fault.isConfiguration then 2 else 1, complaint := fault.message ++ "\n" }

/-- What is printed of a finished audit. -/
def report (a : Audit) (asJson : Bool) : String :=
  if asJson then a.document.indented ++ "\n"
  else if a.isClean then
    "No findings. " ++ toString a.records.length ++ " module(s) in " ++
      toString a.closures.length ++ " bundle(s).\n"
  else Text.withoutCodes (String.join (a.findings.map fun f => f.line ++ "\n"))

/-- The end of a program that audited an output. -/
def reported (a : Audit) (asJson : Bool) : Outcome :=
  { code := if a.isClean then 0 else 1, output := report a asJson }

/-- Can a file be written at a path?  Its folder must be there, also behind a link, and the path
must not lead to a folder. -/
def canWrite (t : FileTree) (p : Path) : Bool :=
  t.isFolder p.parent && t.isFolder (t.resolve p).parent && !t.isFolder p

/-- The end of a program that drew an audit's module graph. -/
def drawn (s : Surroundings) (a : Audit) (out focus : String) : Outcome :=
  let path := Path.ofString out
  let place := s.folder.join path
  if canWrite s.tree place then
    { code := 0
      output := Text.withoutCodes ("Wrote " ++ path.text ++ "\n")
      saved := some (place, a.drawing.document focus) }
  else { code := 1, complaint := "cannot write " ++ path.text ++ "\n" }

/-- Is this word the path of a folder?  The empty word names nothing. -/
def namesFolder (s : Surroundings) (word : String) : Bool :=
  word != "" && s.tree.isFolder (s.folder.child word)

/-- Carries a command out. -/
def Command.perform (s : Surroundings) : Command → Outcome
  | .version => { code := 0, output := versionText ++ "\n" }
  | .help => { code := 0, output := helpText ++ "\n" }
  | .run root asJson =>
    let place := s.folder.child root
    if s.tree.isFile place then misused
    else
      match runAudit s.environment s.tree place none with
      | .error fault => failed fault
      | .ok a => reported a asJson
  | .exportDot root out focus =>
    let place := s.folder.child root
    if s.tree.isFile place || namesFolder s out then misused
    else
      match runAudit s.environment s.tree place none with
      | .error fault => failed fault
      | .ok a => drawn s a out focus

/-- Runs the program with the given words. -/
def perform (s : Surroundings) (words : List String) : Outcome :=
  match Command.ofWords words with
  | none => misused
  | some command => command.perform s

end BundleReach.CommandLine
