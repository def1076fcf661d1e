import BundleReach.CommandLine.Command
import BundleReach.Script.Reading
import BundleReach.Toml.Document

/-!
# The program

What touches the world outside: the program is given words, a folder to start in and a disk, and
prints, writes and ends as the commands say.  All it does by itself is to look at the parts of the
disk that a command needs, so that the commands can work on a file tree.

Main definition: `main`.
-/

namespace BundleReach.CommandLine

/-- What has been seen of the disk, with the places below which everything has been seen. -/
structure Survey where
  tree : FileTree := .bare
  known : List Path := []

namespace Survey

/-- Looks at a place: at what stands there, at where it leads if it is a link, and, if `deep`, at
all that lies below. -/
partial def visit (deep : Bool) (s : Survey) (e : IO.FS.DirEntry) : IO Survey := do
  let path := Path.ofString e.path.toString
  let .ok found ← e.path.symlinkMetadata.toBaseIO | return s
  match found.type with
  | .file =>
    let content ← IO.FS.readBinFile e.path
    return { s with tree := s.tree.write path (.file content.toList) }
  | .dir =>
    let s : Survey := { s with tree := s.tree.addFolder path }
    if deep then (← e.path.readDir).foldlM (visit true) s else return s
  | .symlink =>
    let .ok real ← (IO.FS.realPath e.path).toBaseIO | return s
    let target := Path.ofString real.toString
    let s : Survey := { s with tree := s.tree.write path (.link target) }
    if s.known.any target.isWithin then return s
    let known := if deep then target :: s.known else s.known
    visit deep { s with known } ⟨target.parent.text, target.name⟩
  | .other => return s

/-- Looks at the last place of a path, from the true place of the folder before it. -/
def lookAtLast (deep : Bool) (s : Survey) (p : Path) : IO Survey := do
  if p.name == Path.up then return s
  let .ok folder ← (IO.FS.realPath p.parent.text).toBaseIO | return s
  visit deep s ⟨folder, p.name⟩

/-- Looks at the places that a path leads through, and at its last place, deeply or not. -/
def lookAt (deep : Bool) (s : Survey) (p : Path) : IO Survey := do
  let before := (List.range p.parts.length).map fun n => (⟨p.anchor, p.parts.take n⟩ : Path)
  let s ← before.foldlM (lookAtLast false) s
  lookAtLast deep { s with known := if deep then p :: s.known else s.known } p

end Survey

/-- The user's settings file. -/
def userSettingsFile (folder : Path) : IO Path := do
  match ← IO.getEnv "BUNDLE_AUDIT_HOME" with
  | some home => return (folder.child home).child "config.toml"
  | none =>
    let home := (← IO.getEnv "HOME").getD "/"
    return ((folder.child home).child ".bundle-audit").child "config.toml"

/-- How many processors the system tells of. -/
def processorCount : IO Nat := do
  let .ok text ← (IO.FS.readFile "/proc/cpuinfo").toBaseIO | return 0
  return (text.splitOn "\n").countP (·.startsWith "processor")

/-- What audits are run with, unless the user asks for a number of workers by what is no number. -/
def environment? (userFile : Path) : IO (Option Environment) := do
  let workers := defaultWorkers? (← IO.getEnv "BUNDLE_AUDIT_WORKERS") (← processorCount)
  return workers.map fun workers => ⟨Script.readScript, Toml.load, userFile, workers⟩

/-- What a command has to see of the disk. -/
def survey (folder userFile : Path) : Command → IO Survey
  | .run root _ => do
    let s ← Survey.lookAt false {} userFile
    s.lookAt true (folder.child root)
  | .exportDot root out _ => do
    let s ← Survey.lookAt false {} userFile
    let s ← s.lookAt false (folder.child out)
    s.lookAt true (folder.child root)
  | _ => return {}

/-- Prints and writes what a program that ended leaves behind. -/
def Outcome.release (o : Outcome) : IO UInt32 := do
  IO.print o.output
  IO.eprint o.complaint
  if let some (place, text) := o.saved then IO.FS.writeFile place.text text
  return o.code.toUInt32

end BundleReach.CommandLine

open BundleReach BundleReach.CommandLine in
/-- Carries out the command that the words ask for. -/
def main (words : List String) : IO UInt32 := do
  let folder := Path.ofString (← IO.currentDir).toString
  let userFile ← userSettingsFile folder
  let some environment ← environment? userFile
    | do
      IO.eprintln "BUNDLE_AUDIT_WORKERS is no whole number"
      return 1
  let seen ← ((Command.ofWords words).map (survey folder userFile)).getD (pure {})
  (perform ⟨seen.tree, folder, environment⟩ words).release
