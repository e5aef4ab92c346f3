import CognitiveComplexity.Analysis
import CognitiveComplexity.JsonText

set_option autoImplicit false

namespace CognitiveComplexity.Check

structure Finding where
  path : Path
  function : FunctionScore
  violation : Violation
  deriving DecidableEq, Repr

namespace Finding

def line (finding : Finding) : String :=
  finding.path.display ++ ":" ++ toString finding.function.line ++ ":" ++
    toString finding.function.column ++ "  " ++ finding.violation.message ++ "  [" ++
    Violation.rule ++ "]  in " ++ finding.function.name ++ "()"

def json (finding : Finding) : JsonText :=
  .object
    [("path", .string finding.path.display),
      ("line", .natural finding.function.line),
      ("column", .natural finding.function.column),
      ("function", .string finding.function.name),
      ("rule", .string Violation.rule),
      ("message", .string finding.violation.message),
      ("position", .natural finding.violation.position),
      ("score", .natural finding.violation.score),
      ("threshold", .natural finding.violation.threshold)]

end Finding

def findingsIn (file : FileScore) : List Finding :=
  file.violations.map fun (function, violation) => ⟨file.path, function, violation⟩

def findings (files : List FileScore) : List Finding := files.flatMap findingsIn

def violationCount (files : List FileScore) : Nat :=
  (files.map (·.violationCount)).foldr (· + ·) 0

def counted (count : Nat) (noun : String) : String :=
  toString count ++ " " ++ noun ++ (if count == 1 then "" else "s")

structure Tally where
  lines : Array String
  functions : Nat
  files : Nat
  deriving DecidableEq, Repr

namespace Tally

def empty : Tally := ⟨#[], 0, 0⟩

def addFinding (tally : Tally) (finding : Finding) : Tally :=
  { tally with lines := tally.lines.push finding.line, functions := tally.functions + 1 }

def addFile (tally : Tally) (file : FileScore) : Tally :=
  let after := (findingsIn file).foldl addFinding tally
  if (findingsIn file).isEmpty then after else { after with files := after.files + 1 }

def ofFiles (files : List FileScore) : Tally := files.foldl addFile empty

def summary (tally : Tally) (threshold : Nat) : List String :=
  if tally.functions == 0 then
    ["No functions exceed cognitive complexity " ++ toString threshold ++ "."]
  else
    ["",
      counted tally.functions "function" ++ " in " ++ counted tally.files "file" ++
        " over cognitive complexity " ++ toString threshold ++ "."]

end Tally

def lines (files : List FileScore) (threshold : Nat) : List String :=
  let tally := Tally.ofFiles files
  tally.lines.toList ++ tally.summary threshold

def text (files : List FileScore) (threshold : Nat) : String :=
  String.join ((lines files threshold).map (· ++ "\n"))

def json (files : List FileScore) : JsonText := .array ((findings files).map Finding.json)

def render (files : List FileScore) (threshold : Nat) (asJson : Bool) : String :=
  if asJson then (json files).render 0 ++ "\n" else text files threshold

def closing (files : List FileScore) (threshold : Nat) : Log.Entry :=
  ⟨.info, "checked " ++ toString files.length ++ " files, " ++
    toString (violationCount files) ++ " violations (threshold " ++ toString threshold ++ ")"⟩

end CognitiveComplexity.Check
