import CognitiveComplexity.Proofs.Report.Json
import CognitiveComplexity.Proofs.Report.Line
import CognitiveComplexity.Report.Scores
import Mathlib.Algebra.Ring.Nat
import Mathlib.Data.List.Forall2

set_option autoImplicit false

namespace CognitiveComplexity.Scores

open Line

structure FunctionRow where
  name : String
  line : Nat
  complexity : Nat
  level : Grade
  exceeds : Bool
  deriving DecidableEq, Repr

-- The text form leaves the column out.
structure FunctionEntry extends FunctionRow where
  column : Nat
  deriving DecidableEq, Repr

structure Cells where
  functionCount : Nat
  maximum : Nat
  total : Nat
  violationCount : Nat
  deriving DecidableEq, Repr

structure FileEntry extends Cells where
  path : String
  level : Grade
  functions : List FunctionEntry
  deriving DecidableEq, Repr

structure Totals extends Cells where
  files : Nat
  deriving DecidableEq, Repr

def tags : List (String × Grade) :=
  [("simple", .simple), ("moderate", .moderate), ("complex", .complex),
    ("very_complex", .veryComplex), ("extreme", .extreme)]

def labels : List (String × Grade) :=
  [("simple", .simple), ("moderate", .moderate), ("complex", .complex),
    ("very complex", .veryComplex), ("extreme", .extreme)]

def cutLevel? (text : List Char) : Option (List Char × Grade) :=
  labels.findSome? fun (label, grade) => (cutMark? ("  " ++ label) text).map (·, grade)

def Cells.cut? (text : List Char) : Option (List Char × Cells) := do
  let (text, violationCount) ← cutCell? text
  let (text, total) ← cutCell? text
  let (text, maximum) ← cutCell? text
  let (text, _) ← cutWord? text
  let (text, functionCount) ← cutCell? text
  return (text, ⟨functionCount, maximum, total, violationCount⟩)

namespace FunctionRow

def ofLine? (line : String) : Option FunctionRow := do
  let (text, level) ← cutLevel? line.toList
  let (text, complexity) ← cutCell? text
  let (text, line) ← cutCell? text
  match text with
  | mark :: ' ' :: rest =>
    let (name, gap) := rest.span (· != ' ')
    if (mark = '!' ∨ mark = ' ') ∧ gap.all (· == ' ') then
      some ⟨String.ofList name, line, complexity, level, mark == '!'⟩
    else none
  | _ => none

end FunctionRow

namespace FunctionEntry

def ofFunction (function : FunctionScore) : FunctionEntry :=
  { name := function.name
    line := function.line
    column := function.column
    complexity := function.complexity
    level := function.grade
    exceeds := function.violation.isSome }

def ofJson? (json : Json) : Option FunctionEntry := do
  return {
    name := ← (← json.field? "name").string?
    line := ← (← json.field? "line").natural?
    column := ← (← json.field? "column").natural?
    complexity := ← (← json.field? "complexity").natural?
    level := ← tags.lookup (← (← json.field? "level").string?)
    exceeds := ← (← json.field? "exceeds_threshold").boolean? }

end FunctionEntry

namespace FileEntry

def ofFile (file : FileScore) : FileEntry :=
  { path := file.path.display
    functionCount := file.functionCount
    maximum := file.maximum
    total := file.total
    violationCount := file.violationCount
    level := file.grade
    functions := file.functions.map FunctionEntry.ofFunction }

def ofJson? (json : Json) : Option FileEntry := do
  return {
    path := ← (← json.field? "path").string?
    functionCount := ← (← json.field? "function_count").natural?
    maximum := ← (← json.field? "max_complexity").natural?
    total := ← (← json.field? "total_complexity").natural?
    violationCount := ← (← json.field? "violation_count").natural?
    level := ← tags.lookup (← (← json.field? "level").string?)
    functions := ← (← json.field? "functions").readAll? FunctionEntry.ofJson? }

-- A row of the table, which has its path between blanks.
def InRow (file : FileEntry) (line : String) : Prop :=
  ∃ text gap, cutLevel? line.toList = some (text, file.level) ∧
    Cells.cut? text = some (' ' :: file.path.toList ++ blanks gap, file.toCells)

-- A block of the per-function form.
def InBlock (file : FileEntry) (block : List String) : Prop :=
  ∃ rows, block = ["", file.path ++ ":"] ++ rows ∧
    rows.map FunctionRow.ofLine? = file.functions.map fun function => some function.toFunctionRow

end FileEntry

namespace Totals

def ofLine? (line : String) : Option Totals := do
  let (text, cells) ← Cells.cut? line.toList
  return { cells with files := ← enclosed? " Total (" " files)" text }

def ofFiles (files : List FileEntry) : Totals :=
  { files := files.length
    functionCount := (files.map (·.functionCount)).sum
    maximum := (files.map (·.maximum)).foldl max 0
    total := (files.map (·.total)).sum
    violationCount := (files.map (·.violationCount)).sum }

end Totals

def InTable (files : List FileEntry) (lines : List String) : Prop :=
  ∃ rule gap rows totals,
    lines = ["Cognitive Complexity", rule,
      " File" ++ String.ofList (blanks gap) ++ "  Functions   Avg   Max   Total  Over  Level", rule] ++
        rows ++ [rule, totals] ∧
    List.Forall₂ FileEntry.InRow files rows ∧ Totals.ofLine? totals = some (.ofFiles files)

def PerFunction (files : List FileEntry) (lines : List String) : Prop :=
  ∃ rule blocks,
    lines = ["Cognitive Complexity (per function)", rule] ++ blocks.flatten ++ [rule] ∧
    List.Forall₂ FileEntry.InBlock files blocks

-- The text shows these files, in the form that the options ask for.
def Shows (options : Options) (files : List FileEntry) (text : String) : Prop :=
  if options.json then
    ∃ document, Json.read text = some document ∧ document.readAll? FileEntry.ofJson? = some files
  else if files = [] then text = "No functions found.\n"
  else ∃ lines, text = String.join (lines.map (· ++ "\n")) ∧
    if options.perFunction then PerFunction files lines else InTable files lines

theorem lookup_tag (grade : Grade) : tags.lookup grade.tag = some grade := by
  cases grade <;> decide

theorem cutLevel_append (front : List Char) (grade : Grade) :
    cutLevel? (front ++ "  ".toList ++ grade.label.toList) = some (front, grade) := by
  rw [List.append_assoc, ← String.toList_append]
  cases grade <;>
  simp [cutLevel?, labels, cutMark?, List.isSuffixOf?, Grade.label, List.isPrefixOf?]

theorem ofJson_functionJson (function : FunctionScore) :
    FunctionEntry.ofJson? (functionJson function).plain = some (.ofFunction function) := by
  simp [FunctionEntry.ofJson?, functionJson, JsonText.plain, JsonText.plainFields, Json.field?,
    List.lookup_cons, Json.string?, Json.boolean?, lookup_tag, FunctionEntry.ofFunction]

theorem ofJson_fileJson (file : FileScore) :
    FileEntry.ofJson? (fileJson file).plain = some (.ofFile file) := by
  have functions := Json.readAll_plain _ _ _ ofJson_functionJson file.functions
  rw [JsonText.plain] at functions
  simp [FileEntry.ofJson?, fileJson, JsonText.plain, JsonText.plainFields, Json.field?,
    List.lookup_cons, Json.string?, functions, lookup_tag, FileEntry.ofFile]

theorem toList_padStart (width : Nat) (text : String) :
    (padStart width text).toList = blanks (width - text.length) ++ text.toList := by
  simp [padStart, spaces, blanks]

theorem toList_padEnd (width : Nat) (text : String) :
    (padEnd width text).toList = text.toList ++ blanks (width - text.length) := by
  simp [padEnd, spaces, blanks]

theorem isWord_onePlace (value : Binary) : IsWord (Decimal.onePlace value).toList := by
  obtain ⟨filled, solid⟩ := isWord_toString
    (Binary.roundQuotient (10 * value.ratio.1) value.ratio.2 / 10)
  have digit := (isWord_toString (Binary.roundQuotient (10 * value.ratio.1) value.ratio.2 % 10)).2
  have point : ' ' ∉ ".".toList := by decide
  constructor
  next => simp only [Decimal.onePlace, String.toList_append, ne_eq, List.append_eq_nil_iff, filled,
    false_and, not_false_eq_true]
  next => simp only [Decimal.onePlace, String.toList_append, List.mem_append, solid, digit, point,
    or_false, not_false_eq_true]

theorem cut_numbers (front : List Char) (functions : Nat) (average : Binary)
    (maximum total exceeding : Nat) :
    ∃ gap, Cells.cut? (front ++ "  ".toList ++
        (numbers (cells functions average maximum total exceeding)).toList) =
      some (front ++ blanks gap, ⟨functions, maximum, total, exceeding⟩) := by
  have text : front ++ "  ".toList ++
      (numbers (cells functions average maximum total exceeding)).toList =
        front ++ blanks (9 - (toString functions).length + 1 + 1) ++ (toString functions).toList ++
          blanks (5 - (Decimal.onePlace average).length + 1) ++ (Decimal.onePlace average).toList ++
          blanks (5 - (toString maximum).length + 1) ++ (toString maximum).toList ++
          blanks (7 - (toString total).length + 1) ++ (toString total).toList ++
          blanks (5 - (toString exceeding).length + 1) ++ (toString exceeding).toList := by
    simp only [numbers, cells, String.toList_intercalate, List.zipWith_cons_cons, List.zipWith_nil_left,
      List.map_cons, List.map_nil, toList_padStart, List.intercalate_cons_cons,
      List.intercalate_singleton]
    simp [blanks, List.replicate_succ]
  refine ⟨9 - (toString functions).length + 1 + 1, ?_⟩
  rw [text]
  simp only [Cells.cut?, cutCell_append, cutCell_blanks, cutWord_blanks,
    cutWord_append _ _ _ (isWord_onePlace average), Option.bind_eq_bind, Option.bind_some]
  rfl

theorem inRow_row (pathWidth : Nat) (file : FileScore) :
    (FileEntry.ofFile file).InRow (row pathWidth file) := by
  obtain ⟨padding, path⟩ : ∃ padding, (Text.lossyPadded pathWidth file.path.bytes).toList =
      file.path.display.toList ++ blanks padding := by
    simp only [Text.lossyPadded, String.toList_append, String.toList_ofList]
    exact ⟨_, rfl⟩
  obtain ⟨gap, numbers⟩ := cut_numbers (' ' :: file.path.display.toList ++ blanks padding)
    file.functionCount file.average file.maximum file.total file.violationCount
  have text : (row pathWidth file).toList =
      ' ' :: file.path.display.toList ++ blanks padding ++ "  ".toList ++
        (Scores.numbers (cells file.functionCount file.average file.maximum file.total
          file.violationCount)).toList ++ "  ".toList ++ file.grade.label.toList := by
    simp only [row, String.toList_append, path, List.append_assoc]
    rfl
  rw [List.append_assoc _ (blanks padding) (blanks gap), blanks_append padding gap] at numbers
  exact ⟨_, padding + gap, by rw [text]; exact cutLevel_append _ file.grade, numbers⟩

theorem span_append (keep : Char → Bool) (run rest : List Char) (kept : ∀ c ∈ run, keep c = true)
    (stops : ∀ c ∈ rest.head?, keep c = false) : (run ++ rest).span keep = (run, rest) := by
  rw [List.span_eq_takeWhile_dropWhile, List.takeWhile_append_of_pos kept,
    List.dropWhile_append_of_pos kept]
  cases rest with
  | nil => simp
  | cons c rest => simp [stops c rfl]

theorem ofLine_functionRow (nameWidth : Nat) (function : FunctionScore)
    (unspaced : ' ' ∉ function.name.toList) :
    FunctionRow.ofLine? (functionRow nameWidth function) =
      some (FunctionEntry.ofFunction function).toFunctionRow := by
  let mark := if function.violation.isSome then '!' else ' '
  let gap := nameWidth - function.name.length + (5 - (toString function.line).length) + 1
  have between : blanks (gap + 1) = blanks (nameWidth - function.name.length) ++
      ("  ".toList ++ blanks (5 - (toString function.line).length)) := by
    rw [show "  ".toList = blanks 2 from rfl, blanks_append, blanks_append]
    congr 1
    omega
  have text : (functionRow nameWidth function).toList =
      (mark :: ' ' :: function.name.toList) ++ blanks (gap + 1) ++ (toString function.line).toList ++
        blanks (5 - (toString function.complexity).length + 1 + 1) ++
        (toString function.complexity).toList ++ "  ".toList ++ function.grade.label.toList := by
    rw [between]
    simp only [functionRow, String.toList_append, toList_padStart, toList_padEnd, mark]
    cases function.violation.isSome <;> simp [blanks, List.replicate_succ]
  have name : (function.name.toList ++ blanks (gap + 1)).span (· != ' ') =
      (function.name.toList, blanks (gap + 1)) := by
    apply span_append
    next => exact fun c member => bne_iff_ne.mpr fun same => unspaced (same ▸ member)
    next => simp [blanks, List.replicate_succ]
  have marked : mark = '!' ∨ mark = ' ' := by
    simp only [mark]
    cases function.violation.isSome <;> simp
  have flag : (mark == '!') = function.violation.isSome := by
    simp only [mark]
    cases function.violation.isSome <;> rfl
  have blank : (blanks (gap + 1)).all (· == ' ') = true := by simp [blanks]
  rw [FunctionRow.ofLine?, text, cutLevel_append]
  simp only [Option.bind_eq_bind, Option.bind_some, cutCell_append, cutCell_blanks]
  simp only [List.cons_append, name, marked, blank, and_self, if_true, flag, String.ofList_toList]
  rfl

theorem inBlock_fileLines (file : FileScore)
    (unspaced : ∀ function ∈ file.functions, ' ' ∉ function.name.toList) :
    (FileEntry.ofFile file).InBlock (fileLines file) := by
  refine ⟨_, rfl, ?_⟩
  rw [FileEntry.ofFile, List.map_map, List.map_map]
  exact List.map_congr_left fun function member =>
    ofLine_functionRow _ function (unspaced function member)

theorem ofLine_totals (width files functions : Nat) (average : Binary)
    (maximum total exceeding : Nat) :
    Totals.ofLine? (padEnd width (" Total (" ++ toString files ++ " files)") ++ "  " ++
      numbers (cells functions average maximum total exceeding)) =
        some ⟨⟨functions, maximum, total, exceeding⟩, files⟩ := by
  let padding := width - (" Total (" ++ toString files ++ " files)").length
  obtain ⟨gap, numbers⟩ := cut_numbers (" Total (".toList ++ (toString files).toList ++
    " files)".toList ++ blanks padding) functions average maximum total exceeding
  have name := enclosed_append " Total (" " files)" files (padding + gap) (by simp) (by simp)
    (by simp)
  rw [List.append_assoc _ (blanks padding) (blanks gap), blanks_append padding gap] at numbers
  simp only [Totals.ofLine?, String.toList_append, toList_padEnd]
  rw [numbers, Option.bind_eq_bind, Option.bind_some, name]
  rfl

theorem ofLine_totalsRow (pathWidth : Nat) (files : List FileScore) :
    Totals.ofLine? (totalsRow pathWidth files) = some (.ofFiles (files.map FileEntry.ofFile)) := by
  unfold totalsRow
  dsimp only
  rw [ofLine_totals]
  simp only [Totals.ofFiles, List.map_map, Function.comp_def, FileEntry.ofFile, List.sum_eq_foldr,
    List.length_map]

theorem heading_eq (pathWidth : Nat) :
    heading pathWidth = " File" ++ String.ofList (blanks (pathWidth - 4)) ++
      "  Functions   Avg   Max   Total  Over  Level" := by
  have numbers : "  " ++ (numbers ["Functions", "Avg", "Max", "Total", "Over"] ++ "  Level") =
      "  Functions   Avg   Max   Total  Over  Level" := by
    decide +kernel
  have file : " " ++ "File" = " File" := by decide
  rw [heading, padEnd, spaces, ← numbers, ← file]
  simp only [String.append_assoc]
  rfl

theorem inTable_tableLines (files : List FileScore) :
    InTable (files.map FileEntry.ofFile) (tableLines files) := by
  unfold tableLines
  dsimp only
  refine ⟨_, _, _, _, by rw [heading_eq], ?_, ofLine_totalsRow _ files⟩
  rw [List.forall₂_map_left_iff, List.forall₂_map_right_iff, List.forall₂_same]
  exact fun file _ => inRow_row _ file

theorem perFunction_functionLines (files : List FileScore)
    (unspaced : ∀ file ∈ files, ∀ function ∈ file.functions, ' ' ∉ function.name.toList) :
    PerFunction (files.map FileEntry.ofFile) (functionLines files) := by
  refine ⟨separator 78, files.map fileLines, by rw [functionLines, List.flatMap_def], ?_⟩
  rw [List.forall₂_map_left_iff, List.forall₂_map_right_iff, List.forall₂_same]
  exact fun file member => inBlock_fileLines file (unspaced file member)

theorem shows_render (options : Options) (files : List FileScore)
    (unspaced : ∀ file ∈ files, ∀ function ∈ file.functions, ' ' ∉ function.name.toList) :
    Shows options (files.map FileEntry.ofFile) (render options files) := by
  unfold Shows render
  split
  next => exact ⟨_, Json.read_render _, Json.readAll_plain _ _ _ ofJson_fileJson files⟩
  next =>
    by_cases empty : files = []
    next =>
      subst empty
      rfl
    next =>
      have filled : files.map FileEntry.ofFile ≠ [] := by simpa using empty
      simp only [List.isEmpty_iff, empty, filled, if_false]
      refine ⟨_, rfl, ?_⟩
      split
      next => exact perFunction_functionLines files unspaced
      next => exact inTable_tableLines files

end CognitiveComplexity.Scores
