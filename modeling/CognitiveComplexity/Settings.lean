import CognitiveComplexity.FileTree
import CognitiveComplexity.SourceFilter
import CognitiveComplexity.Text.Hidden
import CognitiveComplexity.Toml.Document
import CognitiveComplexity.Violation

set_option autoImplicit false

namespace CognitiveComplexity

structure Settings where
  threshold : Nat
  extensions : List String
  skip : List String
  deriving DecidableEq, Repr

namespace Settings

def fileName : String := "cogsniff.toml"

def default : Settings := ⟨Violation.defaultThreshold, ["php"], []⟩

inductive Expected where
  | number
  | list
  | text
  deriving DecidableEq, Repr

inductive Mismatch where
  | unknownKey (key : String)
  | negative (value : Int)
  | wrongType (found : Toml.Value) (expected : Expected)
  deriving Repr

inductive Error where
  | unreadable (path : Path) (fault : AccessFault)
  | notToml (path : Path) (text : String)
  | mismatch (path : Path) (text : String) (cause : Mismatch)
  | invalidThreshold
  | invalidGlob (error : Glob.Error)
  deriving Repr

def codeEscape (c : Char) : List Char :=
  ['\\', 'u', '\x7b'] ++ Nat.toDigits 16 c.toNat ++ ['\x7d']

def quoteChar (c : Char) : List Char :=
  match c with
  | '\x00' => ['\\', '0']
  | '\t' => ['\\', 't']
  | '\r' => ['\\', 'r']
  | '\n' => ['\\', 'n']
  | '"' => ['\\', '"']
  | '\\' => ['\\', '\\']
  | c => if Text.isHidden c then codeEscape c else [c]

def quoted (text : String) : String :=
  "\"" ++ String.ofList (text.toList.flatMap quoteChar) ++ "\""

def describe : Toml.Value → String
  | .string text => "string " ++ quoted text
  | .integer value => "integer \x60" ++ toString value ++ "\x60"
  | .fraction value => "floating point \x60" ++ value.text ++ "\x60"
  | .boolean value => "boolean \x60" ++ (if value then "true" else "false") ++ "\x60"
  | .array _ | .tables _ => "sequence"
  | .moment | .inlineTable _ _ | .table _ _ => "map"

def Expected.describe : Expected → String
  | .number => "usize"
  | .list => "a sequence"
  | .text => "a string"

def Mismatch.message : Mismatch → String
  | .unknownKey key =>
    "unknown field \x60" ++ key ++ "\x60, expected one of \x60max_cognitive_complexity\x60, " ++
      "\x60file_extensions\x60, \x60skip\x60"
  | .negative value =>
    "invalid value: integer \x60" ++ toString value ++ "\x60, expected " ++ Expected.number.describe
  | .wrongType found expected =>
    "invalid type: " ++ describe found ++ ", expected " ++ expected.describe

-- What is said about a text that is no document, or about what does not fit in one that is.
abbrev Wording := String → Option Mismatch → String

def Error.message (wording : Wording) : Error → String
  | .unreadable path fault => "cannot read " ++ path.display ++ ": " ++ fault.message
  | .notToml path text => "invalid config " ++ path.display ++ ": " ++ wording text none
  | .mismatch path text cause =>
    "invalid config " ++ path.display ++ ": " ++ wording text (some cause)
  | .invalidThreshold => "max_cognitive_complexity must be greater than 0"
  | .invalidGlob error => "invalid skip pattern: " ++ error.message

def natural : Toml.Value → Except Mismatch Nat
  | .integer value => if 0 ≤ value then .ok value.toNat else .error (.negative value)
  | other => .error (.wrongType other .number)

def text : Toml.Value → Except Mismatch String
  | .string text => .ok text
  | other => .error (.wrongType other .text)

def texts : Toml.Value → Except Mismatch (List String)
  | .array items => items.mapM text
  | .tables elements => elements.reverse.mapM text
  | other => .error (.wrongType other .list)

def assign (settings : Settings) (entry : String × Toml.Value) : Except Mismatch Settings :=
  match entry.1 with
  | "max_cognitive_complexity" => do return { settings with threshold := ← natural entry.2 }
  | "file_extensions" => do return { settings with extensions := ← texts entry.2 }
  | "skip" => do return { settings with skip := ← texts entry.2 }
  | key => .error (.unknownKey key)

def validated (settings : Settings) : Except Error Settings :=
  if settings.threshold == 0 then .error .invalidThreshold else .ok settings

def parse (text : String) (path : Path) : Except Error Settings :=
  match Toml.document? text with
  | none => .error (.notToml path text)
  | some entries =>
    match entries.foldlM assign default with
    | .error cause => .error (.mismatch path text cause)
    | .ok settings => settings.validated

/-- The settings file for a target: the one asked for, or else the one beside the target if there is
one. -/
def file? (working : Location) (asked : Option Path) (target : Path) : Option Path :=
  match asked with
  | some path => some path
  | none =>
    let directory := if working.hasFile target then target.parent?.getD (.ofString ".") else target
    let candidate := directory.join (Bytes.ofString fileName)
    if working.hasFile candidate then some candidate else none

def load (working : Location) (path : Path) : Except Error String :=
  (working.readText path).mapError (.unreadable path)

def resolve (working : Location) (asked : Option Path) (target : Path) : Except Error Settings :=
  match file? working asked target with
  | none => .ok default
  | some path => do parse (← load working path) path

def withThreshold (settings : Settings) (threshold : Option Nat) : Except Error Settings :=
  ({ settings with threshold := threshold.getD settings.threshold } : Settings).validated

def filter (settings : Settings) : Except Error SourceFilter :=
  (SourceFilter.make settings.extensions settings.skip).mapError .invalidGlob

end Settings

end CognitiveComplexity
