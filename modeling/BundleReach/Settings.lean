import BundleReach.Environment
import BundleReach.FileTree.Basic
import BundleReach.Numeral.Whole

/-!
# Settings

An audit has four settings.  They come from the `audit` table of a settings file, the output's own
if it has one, else the user's.  Keys that name no setting are kept aside, and a setting that no key
names is what every audit starts from.

Main definitions: `Settings`, `loadSettings`.
-/

namespace BundleReach

/-- What an audit goes by. -/
structure Settings where
  /-- The folder, within the output, that holds a folder for each bundle. -/
  bundlesFolder : String := "dist"
  /-- The endings tried on a path that names no file. -/
  extensions : List String := [".js", ".mjs", ".ts", ".hbs", ".hbs.js", ".json"]
  /-- Modules and packages that are supplied when the bundles run. -/
  externals : List String := []
  /-- How many modules may be read at once. -/
  workers : Numeral.Whole
  deriving DecidableEq, Repr

/-- The settings that every audit starts from, with the number of modules that may be read at
once. -/
def Settings.initial (workers : Int) : Settings := { workers := .number workers }

/-- The name of an output's own settings file. -/
def settingsName : String := ".bundle-audit.toml"

/-- Why settings cannot be loaded from a file. -/
inductive SettingsFault where
  /-- The file cannot be read or breaks the format. -/
  | malformed (file : Path) (reason : String)
  | notATable (file : Path)
  | notTexts (key : String) (file : Path)
  | notPositive (file : Path)
  | notAText (file : Path)
  /-- The file puts a value to a use that it does not have. -/
  | misuse (m : Toml.Misuse)
  /-- The file is no text. -/
  | badText (fault : Text.DecodeError)
  deriving DecidableEq, Repr

def SettingsFault.message : SettingsFault → String
  | malformed file reason => "Invalid audit configuration " ++ file.text ++ ": " ++ reason
  | notATable file => "[audit] in " ++ file.text ++ " must be a table"
  | notTexts key file => "audit." ++ key ++ " in " ++ file.text ++ " must be a list of strings"
  | notPositive file => "audit.workers in " ++ file.text ++ " must be a positive integer"
  | notAText file => "audit.bundles-dir in " ++ file.text ++ " must be a string"
  | misuse m => m.message
  | badText fault => fault.message

/-- The settings of a file, with the keys that name none of them. -/
structure LoadedSettings where
  settings : Settings
  extra : Table String Toml.Value := []
  deriving Repr

namespace Settings

/-- A key as a setting's name: hyphens count as underscores. -/
def keyName (key : String) : String :=
  String.ofList (Text.replaceMark '-' ['_'] key.toList)

/-- The names of the settings. -/
def names : List String := ["bundles_dir", "extensions", "externals", "workers"]

/-- The value written last under a setting's name. -/
def valueOf (entries : Table String Toml.Value) (name : String) : Option Toml.Value :=
  (entries.reverse.find? fun e => keyName e.1 == name).map Prod.snd

/-- A list of texts. -/
def textsOf : Toml.Value → Option (List String)
  | .list items => items.mapM Toml.Value.text?
  | _ => none

/-- A number from one on; true counts as one. -/
def positiveOf : Toml.Value → Option Numeral.Whole
  | .int n => if 1 ≤ n then some (.number n) else none
  | .bool b => if b then some (.flag b) else none
  | _ => none

/-- The setting that a value gives, or else the one there is. -/
def given {α : Type} (v : Option Toml.Value) (read : Toml.Value → Option α) (fault : SettingsFault)
    (otherwise : α) : Except SettingsFault α :=
  match v with
  | none => .ok otherwise
  | some v => match read v with
    | some a => .ok a
    | none => .error fault

/-- The settings in the `audit` table of a file. -/
def ofSection (e : Environment) (file : Path) (entries : Table String Toml.Value) :
    Except SettingsFault LoadedSettings := do
  let base := initial e.workers
  let extensions ←
    given (valueOf entries "extensions") textsOf (.notTexts "extensions" file) base.extensions
  let externals ←
    given (valueOf entries "externals") textsOf (.notTexts "externals" file) base.externals
  let workers ← given (valueOf entries "workers") positiveOf (.notPositive file) base.workers
  let bundlesFolder ←
    given (valueOf entries "bundles_dir") Toml.Value.text? (.notAText file) base.bundlesFolder
  return ⟨⟨bundlesFolder, extensions, externals, workers⟩,
    entries.filter fun e => !names.contains (keyName e.1)⟩

/-- The settings that a file of the given content holds. -/
def ofContent (e : Environment) (file : Path) (content : Text.Bytes) :
    Except SettingsFault LoadedSettings :=
  match e.loadToml content with
  | .error (.malformed reason) => .error (.malformed file reason)
  | .error (.badText fault) => .error (.badText fault)
  | .error (.misuse m) => .error (.misuse m)
  | .ok whole =>
    match Table.find? "audit" whole with
    | none => .ok ⟨initial e.workers, []⟩
    | some v =>
      match v.entries? with
      | some entries => ofSection e file entries
      | none => .error (.notATable file)

end Settings

/-- The file that holds the settings for an output: its own, else the user's. -/
def settingsFile? (t : FileTree) (root : Option Path) (userFile : Path) : Option Path :=
  let own := (root.map (·.child settingsName)).filter t.isFile
  own.orElse fun _ => if t.isFile userFile then some userFile else none

/-- The settings for an output; without a settings file, those that every audit starts from. -/
def loadSettings (e : Environment) (t : FileTree) (root : Option Path) :
    Except SettingsFault LoadedSettings :=
  match settingsFile? t root e.userFile with
  | none => .ok ⟨.initial e.workers, []⟩
  | some file =>
    match t.read file with
    | .ok content => Settings.ofContent e file content
    | .error fault => .error (.malformed file fault.message)

end BundleReach
