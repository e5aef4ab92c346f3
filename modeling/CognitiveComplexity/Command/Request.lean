import CognitiveComplexity.Command.Page

set_option autoImplicit false

namespace CognitiveComplexity

structure Selection where
  path : Path
  includeTests : Bool
  config : Option Path
  threshold : Option Nat
  deriving DecidableEq, Repr

inductive Command where
  | check (selection : Selection) (json : Bool)
  | scores (selection : Selection) (options : Scores.Options)
  | completions (shell : Shell)
  deriving DecidableEq, Repr

inductive Request where
  | run (verbosity : Nat) (command : Command)
  | help (page : Page) (detailed : Bool)
  | version
  deriving DecidableEq, Repr

namespace Arguments

def selection (arguments : Arguments) : Selection :=
  { path := arguments.path.getD (.ofString ".")
    includeTests := arguments.includeTests
    config := arguments.config
    threshold := arguments.threshold }

def scoresOptions (arguments : Arguments) : Scores.Options :=
  { json := arguments.json
    minimum := arguments.minimum.getD 0
    top := arguments.top.getD 20
    perFunction := arguments.perFunction
    sortBy := arguments.sortBy.getD "total" }

def command (arguments : Arguments) : CommandName → Except UsageError Command
  | .check => .ok (.check arguments.selection arguments.json)
  | .scores => .ok (.scores arguments.selection arguments.scoresOptions)
  | .completions =>
    match arguments.shell with
    | some shell => .ok (.completions shell)
    | none => .error .missingShell

end Arguments

inductive Argument where
  | long (name : String) (value : Option Bytes)
  | short (letters : List Char)
  | separator
  | plain (value : Bytes)
  deriving DecidableEq, Repr

/-- A dash alone is no option. A name that is no text is shown as one, and no option has it. -/
def Argument.ofWord (word : Bytes) : Argument :=
  match word with
  | [Byte.dash, Byte.dash] => .separator
  | Byte.dash :: Byte.dash :: rest =>
    let name := rest.takeWhile (· != Byte.equals)
    let value := match rest.dropWhile (· != Byte.equals) with
      | [] => none
      | _ :: value => some value
    .long (Text.lossy name) value
  | Byte.dash :: letter :: rest => .short (Text.lossy (letter :: rest)).toList
  | _ => .plain word

inductive Arguments.Progress where
  | finished (arguments : Arguments)
  | help (detailed : Bool)
  deriving DecidableEq, Repr

namespace Arguments

def louder (arguments : Arguments) : Arguments :=
  { arguments with verbosity := arguments.verbosity + 1 }

def readLetters (arguments : Arguments) : List Char → Except UsageError Progress
  | [] => .ok (.finished arguments)
  | letter :: rest =>
    if letter == 'v' then arguments.louder.readLetters rest
    else if letter == 'h' then .ok (.help false)
    else .error (.unexpected ("-" ++ String.singleton letter))

def read (name : CommandName) (arguments : Arguments) : List Bytes → Except UsageError Progress
  | [] => .ok (.finished arguments)
  | word :: rest =>
    match Argument.ofWord word with
    | .separator => return .finished (← rest.foldlM (place name) arguments)
    | .plain value => do read name (← arguments.place name value) rest
    | .short letters => do
      match ← arguments.readLetters letters with
      | .finished next => read name next rest
      | .help detailed => return .help detailed
    | .long "help" none => .ok (.help true)
    | .long "verbose" none => read name arguments.louder rest
    | .long option attached =>
      match name.switches.lookup option, name.parameters.lookup option with
      | some switch, _ =>
        if attached.isSome then .error (.unexpectedValue option)
        else do read name (← arguments.raise option switch) rest
      | none, none => .error (.unexpected (Text.lossy word))
      | none, some parameter =>
        match attached with
        | some value => do read name (← arguments.set option value parameter) rest
        | none =>
          match rest with
          | [] => .error (.missingValue option)
          | value :: others =>
            match Argument.ofWord value with
            | .plain value => do read name (← arguments.set option value parameter) others
            | _ => .error (.missingValue option)

end Arguments

namespace Request

/-- The request of a command. Its own verbosity counts, or else the one in front of it. -/
def ofCommand (verbosity : Nat) (name : CommandName) (words : List Bytes) :
    Except UsageError Request := do
  match ← Arguments.empty.read name words with
  | .help detailed => return .help (.command name) detailed
  | .finished arguments =>
    let own := arguments.verbosity
    return .run (if own == 0 then verbosity else own) (← arguments.command name)

def page : List Bytes → Except UsageError Page
  | [] => .ok .program
  | [word] =>
    match Text.lossy word with
    | "help" => .ok .help
    | name =>
      match CommandName.ofName? name with
      | some name => .ok (.command name)
      | none => .error (.unknownCommand name)
  | _ :: other :: _ => .error (.unknownCommand (Text.lossy other))

def readLetters (verbosity : Nat) : List Char → Except UsageError (Nat ⊕ Request)
  | [] => .ok (.inl verbosity)
  | letter :: rest =>
    if letter == 'v' then readLetters (verbosity + 1) rest
    else if letter == 'h' then .ok (.inr (.help .program false))
    else if letter == 'V' then .ok (.inr .version)
    else .error (.unexpected ("-" ++ String.singleton letter))

def readFrom (verbosity : Nat) : List Bytes → Except UsageError Request
  | [] => .error .missingCommand
  | word :: rest =>
    match Argument.ofWord word with
    | .separator => .error .missingCommand
    | .plain value =>
      match Text.lossy value with
      | "help" => do return .help (← page rest) true
      | name =>
        match CommandName.ofName? name with
        | some name => ofCommand verbosity name rest
        | none => .error (.unknownCommand name)
    | .short letters => do
      match ← readLetters verbosity letters with
      | .inl next => readFrom next rest
      | .inr request => return request
    | .long "help" none => .ok (.help .program true)
    | .long "version" none => .ok .version
    | .long "verbose" none => readFrom (verbosity + 1) rest
    | .long _ _ => .error (.unexpected (Text.lossy word))

def ofWords (words : List Bytes) : Except UsageError Request := readFrom 0 words

end Request

end CognitiveComplexity
