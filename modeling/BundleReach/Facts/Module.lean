import BundleReach.FileTree.Basic
import BundleReach.Json.Reader
import BundleReach.Facts.Script

/-!
# The facts of a module

A module's name tells in which language it is written: data, a typed script, or a plain script,
which is what a compiled template is too.  Scripts are left to a parser.  A data module offers
itself as its default and refers to nothing.

Main definitions: `SourceLanguage.of`, `moduleFacts` for the bytes of a module, and
`FileTree.factsOf` for a module in a tree.
-/

namespace BundleReach

open Text (Bytes)

/-- The language of a module. -/
inductive SourceLanguage where
  | plainScript
  | typedScript
  | data
  deriving DecidableEq, Repr

/-- The language that a path's name calls for. -/
def SourceLanguage.of (p : Path) : SourceLanguage :=
  if p.ending = ".json" then data
  else if p.ending = ".ts" then typedScript
  else plainScript

def SourceLanguage.label : SourceLanguage → String
  | plainScript => "javascript"
  | typedScript => "typescript"
  | data => "json"

/-- Why a module states no facts. -/
inductive ModuleFault where
  | unreadable (fault : AccessFault)
  /-- A script breaks the grammar, first on this line. -/
  | badScript (line : Nat)
  | badText (fault : Text.DecodeError)
  | badData (fault : Json.Error)
  deriving DecidableEq, Repr

def ModuleFault.reason : ModuleFault → String
  | unreadable fault => "cannot read module: " ++ fault.message
  | badScript _ => "syntax error"
  | badText fault => "invalid JSON module: " ++ fault.message
  | badData fault => "invalid JSON module: " ++ fault.message

/-- The line that a fault is on, if it is on one. -/
def ModuleFault.line? : ModuleFault → Option Nat
  | badScript line => some line
  | _ => none

/-- How a fault reads within a longer sentence. -/
def ModuleFault.summary (f : ModuleFault) : String :=
  match f.line? with
  | none => f.reason
  | some line => f.reason ++ " at line " ++ toString line

/-- A fault told together with the module that has it. -/
def ModuleFault.message (p : Path) (f : ModuleFault) : String :=
  match f.line? with
  | none => p.text ++ ": " ++ f.reason
  | some line => p.text ++ ":" ++ toString line ++ ": " ++ f.reason

/-- What every data module states. -/
def dataFacts : ModuleFacts := ⟨.json, [], .known ["default"]⟩

/-- The facts of a script. -/
def scriptModuleFacts (parse : Script.Parser) (d : Script.Dialect) (bytes : Bytes) :
    Except ModuleFault ModuleFacts :=
  match parse d bytes with
  | .ok tree => .ok (Facts.scriptFacts tree)
  | .error line => .error (.badScript line)

/-- The facts of a data module. -/
def dataModuleFacts (bytes : Bytes) : Except ModuleFault ModuleFacts :=
  match Text.decode bytes with
  | .error fault => .error (.badText fault)
  | .ok cs =>
    match Json.read cs with
    | .error fault => .error (.badData fault)
    | .ok _ => .ok dataFacts

/-- The facts of a module in a language. -/
def moduleFacts (parse : Script.Parser) :
    SourceLanguage → Bytes → Except ModuleFault ModuleFacts
  | .plainScript, bytes => scriptModuleFacts parse .plain bytes
  | .typedScript, bytes => scriptModuleFacts parse .typed bytes
  | .data, bytes => dataModuleFacts bytes

/-- The facts of the module that a path leads to.  The language goes by the path as it is written,
not by the file at its end. -/
def FileTree.factsOf (t : FileTree) (parse : Script.Parser) (p : Path) :
    Except ModuleFault ModuleFacts :=
  match t.read p with
  | .error fault => .error (.unreadable fault)
  | .ok bytes => moduleFacts parse (.of p) bytes

end BundleReach
