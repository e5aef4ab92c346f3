import CognitiveComplexity.Decimal.Binary
import CognitiveComplexity.Grade
import CognitiveComplexity.Log
import CognitiveComplexity.SourceFiles
import CognitiveComplexity.Violation

set_option autoImplicit false

namespace CognitiveComplexity

structure FunctionScore where
  name : String
  line : Nat
  column : Nat
  complexity : Nat
  violation : Option Violation
  deriving DecidableEq, Repr, Inhabited

namespace FunctionScore

def grade (function : FunctionScore) : Grade := .ofScore function.complexity

def ofScope (stream : List Token) (threshold : Nat) (scope : Scope) : FunctionScore :=
  let opener := stream.getD scope.body.start default
  let complexity := scope.body.score stream
  { name := Bytes.decode scope.name
    line := opener.line
    column := opener.column
    complexity
    violation := Violation.ofScore? scope.body complexity threshold }

def ofSource (threshold : Nat) (source : String) : List FunctionScore :=
  let stream := Token.stream source
  (Scope.all stream).map (ofScope stream threshold)

end FunctionScore

structure FileScore where
  path : Path
  functions : List FunctionScore
  deriving DecidableEq, Repr

namespace FileScore

def functionCount (file : FileScore) : Nat := file.functions.length

def complexities (file : FileScore) : List Nat := file.functions.map (·.complexity)

def total (file : FileScore) : Nat := file.complexities.foldr (· + ·) 0

def maximum (file : FileScore) : Nat := file.complexities.foldl max 0

def average (file : FileScore) : Binary := .ofRatio file.total file.functionCount

def grade (file : FileScore) : Grade := .ofScore file.maximum

def violations (file : FileScore) : List (FunctionScore × Violation) :=
  file.functions.filterMap fun function => function.violation.map (function, ·)

def violationCount (file : FileScore) : Nat :=
  (file.functions.filter (·.violation.isSome)).length

end FileScore

def isBinary (content : Bytes) : Bool := (content.take 512).contains 0

def analyse (threshold : Nat) (path : Path) (content : Bytes) : Log.Entry × Option FileScore :=
  if isBinary content then (⟨.warn, "skipping binary file " ++ path.display⟩, none)
  else match Bytes.decode? content with
    | none => (⟨.warn, "skipping non UTF-8 file " ++ path.display⟩, none)
    | some source =>
      match FunctionScore.ofSource threshold source with
      | [] => (⟨.debug, path.display ++ ": no functions"⟩, none)
      | functions =>
        let file : FileScore := ⟨path, functions⟩
        (⟨.debug, path.display ++ ": " ++ toString file.functionCount ++ " functions, max " ++
          toString file.maximum⟩, some file)

def analyseFile (working : Location) (threshold : Nat) (path : Path) :
    Log.Entry × Option FileScore :=
  match working.readBytes path with
  | .error fault => (⟨.warn, path.display ++ ": " ++ fault.message⟩, none)
  | .ok content => analyse threshold path content

structure Analysis where
  log : List Log.Entry
  files : List FileScore
  deriving Repr

namespace Analysis

def refused (path : Path) (fault : AccessFault) : Log.Entry :=
  ⟨.warn, path.display ++ ": IO error for operation on " ++ path.display ++ ": " ++ fault.message⟩

def ofTarget (working : Location) (target : Target) (threshold : Nat) :
    Except TargetError Analysis := do
  let paths ← target.sourceFiles working
  let results := paths.map (analyseFile working threshold)
  let opening : Log.Entry :=
    ⟨.info, "analyzing " ++ toString paths.length ++ " files under " ++ target.path.display⟩
  let warnings := (target.refusals working).map fun (path, fault) => refused path fault
  return ⟨warnings ++ opening :: results.map (·.1), results.filterMap (·.2)⟩

end Analysis

end CognitiveComplexity
