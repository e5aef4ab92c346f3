import CognitiveComplexity.Analysis
import CognitiveComplexity.JsonText

set_option autoImplicit false

namespace CognitiveComplexity.Scores

inductive SortKey where
  | total
  | maximum
  | average
  deriving DecidableEq, Repr

namespace SortKey

def names : List (String × SortKey) := [("total", .total), ("max", .maximum), ("avg", .average)]

def ofName? (name : String) : Option SortKey := names.lookup name

def before (key : SortKey) (first second : FileScore) : Bool :=
  match key with
  | .total => second.total ≤ first.total
  | .maximum => second.maximum ≤ first.maximum
  | .average => second.average.le first.average

end SortKey

structure Options where
  json : Bool
  minimum : Nat
  top : Nat
  perFunction : Bool
  sortBy : String
  deriving DecidableEq, Repr

-- A name that is none of the keys sorts by the total.
def Options.sortKey (options : Options) : SortKey := (SortKey.ofName? options.sortBy).getD .total

/-- The files shown: those that reach the minimum, sorted, and only the first of them. Files with
equal keys keep the order of their paths. -/
def select (options : Options) (files : List FileScore) : List FileScore :=
  ((files.filter fun file => options.minimum ≤ file.maximum).mergeSort
    options.sortKey.before).take options.top

def spaces (count : Nat) : String := String.ofList (List.replicate count ' ')

def padEnd (width : Nat) (text : String) : String := text ++ spaces (width - text.length)

def padStart (width : Nat) (text : String) : String := spaces (width - text.length) ++ text

def separator (width : Nat) : String := String.ofList (List.replicate width '─')

def width (minimum : Nat) (texts : List String) : Nat :=
  (texts.map (·.utf8ByteSize)).foldl max minimum

def numbers (cells : List String) : String :=
  String.intercalate " " ([9, 5, 5, 7, 5].zipWith padStart cells)

def cells (functions : Nat) (average : Binary) (maximum total exceeding : Nat) : List String :=
  [toString functions, Decimal.onePlace average, toString maximum, toString total,
    toString exceeding]

def heading (pathWidth : Nat) : String :=
  " " ++ padEnd pathWidth "File" ++ "  " ++
    numbers ["Functions", "Avg", "Max", "Total", "Over"] ++ "  Level"

def row (pathWidth : Nat) (file : FileScore) : String :=
  " " ++ Text.lossyPadded pathWidth file.path.bytes ++ "  " ++
    numbers (cells file.functionCount file.average file.maximum file.total file.violationCount) ++
    "  " ++ file.grade.label

def totalsRow (pathWidth : Nat) (files : List FileScore) : String :=
  let functions := (files.map (·.functionCount)).foldr (· + ·) 0
  let total := (files.map (·.total)).foldr (· + ·) 0
  let maximum := (files.map (·.maximum)).foldl max 0
  let exceeding := (files.map (·.violationCount)).foldr (· + ·) 0
  padEnd (pathWidth + 1) (" Total (" ++ toString files.length ++ " files)") ++ "  " ++
    numbers (cells functions (.ofRatio total functions) maximum total exceeding)

def tableLines (files : List FileScore) : List String :=
  let pathWidth := width 4 (files.map (·.path.display))
  let rule := separator (max (pathWidth + 61) 78)
  ["Cognitive Complexity", rule, heading pathWidth, rule] ++ files.map (row pathWidth) ++
    [rule, totalsRow pathWidth files]

def functionRow (nameWidth : Nat) (function : FunctionScore) : String :=
  (if function.violation.isSome then "!" else " ") ++ " " ++ padEnd nameWidth function.name ++
    "  " ++ padStart 5 (toString function.line) ++ "  " ++
    padStart 5 (toString function.complexity) ++ "  " ++ function.grade.label

def fileLines (file : FileScore) : List String :=
  let nameWidth := width 10 (file.functions.map (·.name))
  ["", file.path.display ++ ":"] ++ file.functions.map (functionRow nameWidth)

def functionLines (files : List FileScore) : List String :=
  let rule := separator 78
  ["Cognitive Complexity (per function)", rule] ++ files.flatMap fileLines ++ [rule]

def functionJson (function : FunctionScore) : JsonText :=
  .object
    [("name", .string function.name),
      ("line", .natural function.line),
      ("column", .natural function.column),
      ("complexity", .natural function.complexity),
      ("level", .string function.grade.tag),
      ("exceeds_threshold", .boolean function.violation.isSome)]

def fileJson (file : FileScore) : JsonText :=
  .object
    [("path", .string file.path.display),
      ("function_count", .natural file.functionCount),
      ("avg_complexity", .fraction file.average),
      ("max_complexity", .natural file.maximum),
      ("total_complexity", .natural file.total),
      ("violation_count", .natural file.violationCount),
      ("level", .string file.grade.tag),
      ("functions", .array (file.functions.map functionJson))]

def json (files : List FileScore) : JsonText := .array (files.map fileJson)

def render (options : Options) (shown : List FileScore) : String :=
  if options.json then (json shown).render 0 ++ "\n"
  else
    let lines :=
      if shown.isEmpty then ["No functions found."]
      else if options.perFunction then functionLines shown
      else tableLines shown
    String.join (lines.map (· ++ "\n"))

end CognitiveComplexity.Scores
