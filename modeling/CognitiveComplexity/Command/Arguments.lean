import CognitiveComplexity.Report.Scores
import CognitiveComplexity.Settings

set_option autoImplicit false

namespace CognitiveComplexity

inductive Shell where
  | bash
  | elvish
  | fish
  | powershell
  | zsh
  deriving DecidableEq, Repr

namespace Shell

def names : List (String × Shell) :=
  [("bash", .bash), ("elvish", .elvish), ("fish", .fish), ("powershell", .powershell),
    ("zsh", .zsh)]

def ofName? (name : String) : Option Shell := names.lookup name

end Shell

inductive Switch where
  | json
  | includeTests
  | perFunction
  deriving DecidableEq, Repr

inductive Parameter where
  | config
  | threshold
  | minimum
  | top
  | sortBy
  deriving DecidableEq, Repr

inductive CommandName where
  | check
  | scores
  | completions
  deriving DecidableEq, Repr

namespace CommandName

def names : List (String × CommandName) :=
  [("check", .check), ("scores", .scores), ("completions", .completions)]

def ofName? (name : String) : Option CommandName := names.lookup name

def switches : CommandName → List (String × Switch)
  | .check => [("json", .json), ("include-tests", .includeTests)]
  | .scores => [("json", .json), ("include-tests", .includeTests), ("per-function", .perFunction)]
  | .completions => []

def parameters : CommandName → List (String × Parameter)
  | .check => [("config", .config), ("max-cognitive-complexity", .threshold)]
  | .scores =>
    [("config", .config), ("max-cognitive-complexity", .threshold), ("min-complexity", .minimum),
      ("top", .top), ("sort-by", .sortBy)]
  | .completions => []

end CommandName

inductive UsageError where
  | missingCommand
  | unknownCommand (name : String)
  | missingShell
  | unexpected (argument : String)
  | unexpectedValue (option : String)
  | missingValue (option : String)
  | invalidValue (value : String)
  | repeated (option : String)
  deriving DecidableEq, Repr

def UsageError.message : UsageError → String
  | .missingCommand => "a command is required"
  | .unknownCommand name => "unrecognized command '" ++ name ++ "'"
  | .missingShell => "a shell is required"
  | .unexpected argument => "unexpected argument '" ++ argument ++ "'"
  | .unexpectedValue option => "option '--" ++ option ++ "' takes no value"
  | .missingValue option => "option '--" ++ option ++ "' needs a value"
  | .invalidValue value => "invalid value '" ++ value ++ "'"
  | .repeated option => "option '--" ++ option ++ "' cannot be used twice"

structure Arguments where
  verbosity : Nat
  path : Option Path
  shell : Option Shell
  json : Bool
  includeTests : Bool
  perFunction : Bool
  config : Option Path
  threshold : Option Nat
  minimum : Option Nat
  top : Option Nat
  sortBy : Option String
  deriving DecidableEq, Repr

namespace Arguments

def empty : Arguments :=
  ⟨0, none, none, false, false, false, none, none, none, none, none⟩

def digitsValue (digits : List Char) : Nat :=
  digits.foldl (fun value digit => 10 * value + (digit.toNat - '0'.toNat)) 0

/-- A number is written in decimal digits, with or without a plus sign, and fits a 64-bit word. -/
def number (value : Bytes) : Except UsageError Nat :=
  let digits := match (Bytes.decode value).toList with
    | '+' :: rest => rest
    | all => all
  if !digits.isEmpty && digits.all Char.isDigit && digitsValue digits < wordCount then
    .ok (digitsValue digits)
  else .error (.invalidValue (Text.lossy value))

def pathOf (value : Bytes) : Except UsageError Path :=
  if value.isEmpty then .error (.invalidValue "") else .ok ⟨value⟩

def named {α : Type} (find : String → Option α) (value : Bytes) : Except UsageError α :=
  match (Bytes.decode? value).bind find with
  | some value => .ok value
  | none => .error (.invalidValue (Text.lossy value))

def once {α : Type} (option : String) (present : Bool) (result : Except UsageError α) :
    Except UsageError α :=
  if present then .error (.repeated option) else result

def raise (arguments : Arguments) (option : String) : Switch → Except UsageError Arguments
  | .json => once option arguments.json (.ok { arguments with json := true })
  | .includeTests =>
    once option arguments.includeTests (.ok { arguments with includeTests := true })
  | .perFunction =>
    once option arguments.perFunction (.ok { arguments with perFunction := true })

def set (arguments : Arguments) (option : String) (value : Bytes) :
    Parameter → Except UsageError Arguments
  | .config => once option arguments.config.isSome do
    return { arguments with config := some (← pathOf value) }
  | .threshold => once option arguments.threshold.isSome do
    return { arguments with threshold := some (← number value) }
  | .minimum => once option arguments.minimum.isSome do
    return { arguments with minimum := some (← number value) }
  | .top => once option arguments.top.isSome do
    return { arguments with top := some (← number value) }
  | .sortBy => once option arguments.sortBy.isSome do
    let name ← named (fun name => (Scores.SortKey.ofName? name).map fun _ => name) value
    return { arguments with sortBy := some name }

-- Takes an argument that is no option. There is room for one.
def place (name : CommandName) (arguments : Arguments) (value : Bytes) :
    Except UsageError Arguments :=
  match name with
  | .completions =>
    if arguments.shell.isSome then .error (.unexpected (Text.lossy value))
    else do return { arguments with shell := some (← named Shell.ofName? value) }
  | _ =>
    if arguments.path.isSome then .error (.unexpected (Text.lossy value))
    else do return { arguments with path := some (← pathOf value) }

end Arguments

end CognitiveComplexity
