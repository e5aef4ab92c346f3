import CognitiveComplexity.Text.Terminal

set_option autoImplicit false

namespace CognitiveComplexity.Log

inductive Level where
  | warn
  | info
  | debug
  | trace
  deriving DecidableEq, Repr

namespace Level

def rank : Level → Nat
  | .warn => 0
  | .info => 1
  | .debug => 2
  | .trace => 3

def ofVerbosity : Nat → Level
  | 0 => .warn
  | 1 => .info
  | 2 => .debug
  | _ => .trace

def label : Level → String
  | .warn => "WARN "
  | .info => "INFO "
  | .debug => "DEBUG"
  | .trace => "TRACE"

end Level

structure Entry where
  level : Level
  message : String
  deriving DecidableEq, Repr

def indented (message : String) : String :=
  String.ofList (message.toList.flatMap fun c =>
    if c == '\n' then ['\n', ' ', ' ', ' ', ' '] else [c])

def Entry.line (entry : Entry) : String :=
  Text.withoutControl ("[" ++ entry.level.label ++ "] " ++ indented entry.message ++ "\n")

def render (level : Level) (entries : List Entry) : String :=
  String.join ((entries.filter (·.level.rank ≤ level.rank)).map Entry.line)

end CognitiveComplexity.Log
