import CognitiveComplexity.Proofs.Report.Json
import CognitiveComplexity.Proofs.Report.Line
import CognitiveComplexity.Report.Check

set_option autoImplicit false

namespace CognitiveComplexity.Check

open Line

-- What both reports tell about a function above the threshold.
structure Entry where
  path : String
  line : Nat
  column : Nat
  function : String
  score : Nat
  threshold : Nat
  deriving DecidableEq, Repr

namespace Entry

def ofFinding (finding : Finding) : Entry :=
  { path := finding.path.display
    line := finding.function.line
    column := finding.function.column
    function := finding.function.name
    score := finding.violation.score
    threshold := finding.violation.threshold }

def ofJson? (json : Json) : Option Entry := do
  return {
    path := ← (← json.field? "path").string?
    line := ← (← json.field? "line").natural?
    column := ← (← json.field? "column").natural?
    function := ← (← json.field? "function").string?
    score := ← (← json.field? "score").natural?
    threshold := ← (← json.field? "threshold").natural? }

def ofLine? (line : String) : Option Entry := do
  let (text, function) := cutEnd (· != ' ') (← cutMark? "()" line.toList)
  let (text, threshold) ← cutNumber? (← cutMark? ".  [CleanCode.CognitiveComplexity]  in " text)
  let (text, score) ← cutNumber? (← cutMark? " have to be less than " text)
  let (text, column) ← cutNumber? (← cutMark? "  Cognitive complexity " text)
  let (text, line) ← cutNumber? (← cutMark? ":" text)
  let path ← cutMark? ":" text
  return ⟨String.ofList path, line, column, String.ofList function, score, threshold⟩

theorem ofJson_json (finding : Finding) : ofJson? finding.json.plain = some (ofFinding finding) := by
  simp [ofJson?, Finding.json, JsonText.plain, JsonText.plainFields, Json.field?, List.lookup_cons,
    Json.string?, ofFinding]

theorem line_eq (finding : Finding) :
    finding.line =
      finding.path.display ++ ":" ++ toString finding.function.line ++ ":" ++
        toString finding.function.column ++ "  Cognitive complexity " ++
        toString finding.violation.score ++ " have to be less than " ++
        toString finding.violation.threshold ++ ".  [CleanCode.CognitiveComplexity]  in " ++
        finding.function.name ++ "()" := by
  have opening : "  " ++ "Cognitive complexity " = "  Cognitive complexity " := by decide
  have closing : "." ++ ("  [" ++ (Violation.rule ++ "]  in ")) =
      ".  [CleanCode.CognitiveComplexity]  in " := by decide
  rw [← opening, ← closing]
  unfold Finding.line Violation.message
  simp only [String.append_assoc, toString]

theorem ofLine_line (finding : Finding) (unspaced : ' ' ∉ finding.function.name.toList) :
    ofLine? finding.line = some (ofFinding finding) := by
  have name : ∀ c ∈ finding.function.name.toList, (c != ' ') = true := by
    intro c member
    rw [bne_iff_ne]
    rintro rfl
    exact unspaced member
  -- What stands in front of a number or of the name ends in a character that belongs to neither.
  have named (front : List Char) := cutEnd_append (· != ' ')
    (front ++ ".  [CleanCode.CognitiveComplexity]  in ".toList) _ (by simp) name
  have limit (front : List Char) := cutNumber_append (front ++ " have to be less than ".toList)
    finding.violation.threshold (by simp)
  have score (front : List Char) := cutNumber_append (front ++ "  Cognitive complexity ".toList)
    finding.violation.score (by simp)
  have place (front : List Char) (value : Nat) := cutNumber_append (front ++ ":".toList) value
    (by simp)
  unfold ofLine?
  rw [line_eq]
  simp only [String.toList_append, cutMark_append, Option.bind_eq_bind, Option.bind_some, named,
    limit, score, place, String.ofList_toList]
  rfl

end Entry

-- What the last line of a text report tells when there is a function above the threshold.
structure Summary where
  functions : Nat
  files : Nat
  threshold : Nat
  deriving DecidableEq, Repr

namespace Summary

-- A count in front of its noun, which has an ending unless the count is one.
def cutCount? (noun : String) (text : List Char) : Option (List Char × Nat) := do
  let plural := cutMark? "s" text
  let (front, count) ← cutNumber? (← cutMark? (" " ++ noun) (plural.getD text))
  if plural.isNone ↔ count = 1 then some (front, count) else none

def ofLine? (line : String) : Option Summary := do
  let (text, threshold) ← cutNumber? (← cutMark? "." line.toList)
  let (text, files) ← cutCount? "file" (← cutMark? " over cognitive complexity " text)
  let (text, functions) ← cutCount? "function" (← cutMark? " in " text)
  if text.isEmpty then some ⟨functions, files, threshold⟩ else none

theorem cutCount_counted (noun : String) (singular : ∀ c ∈ noun.toList.getLast?, c ≠ 's')
    (filled : noun.toList ≠ []) (front : List Char) (stops : ∀ c ∈ front.getLast?, c.isDigit = false)
    (count : Nat) :
    cutCount? noun (front ++ (counted count noun).toList) = some (front, count) := by
  have digits := cutNumber_append front count stops
  have mark := cutMark_append (front ++ (toString count).toList) (" " ++ noun)
  by_cases one : count = 1
  next =>
    have text : front ++ (counted count noun).toList =
        front ++ (toString count).toList ++ (" " ++ noun).toList := by
      simp [counted, one]
    have ends : (front ++ (counted count noun).toList).getLast? = noun.toList.getLast? := by
      rw [text, String.toList_append, ← List.append_assoc, List.getLast?_append_of_ne_nil _ filled]
    have noPlural : cutMark? "s" (front ++ (counted count noun).toList) = none := by
      refine Option.eq_none_iff_forall_ne_some.mpr fun cut plural => ?_
      have whole : cut ++ ['s'] = front ++ (counted count noun).toList :=
        List.isSuffixOf?_eq_some_iff_append_eq.mp plural
      rw [← whole, List.getLast?_concat] at ends
      exact singular 's' (by simp [← ends]) rfl
    rw [← text] at mark
    simp only [cutCount?, noPlural, Option.getD_none, mark, digits, Option.bind_eq_bind,
      Option.bind_some]
    exact if_pos (by simp [one])
  next =>
    have text : front ++ (counted count noun).toList =
        front ++ (toString count).toList ++ (" " ++ noun).toList ++ "s".toList := by
      simp [counted, one]
    have plural := cutMark_append (front ++ (toString count).toList ++ (" " ++ noun).toList) "s"
    rw [← text] at plural
    simp only [cutCount?, plural, Option.getD_some, mark, digits, Option.bind_eq_bind,
      Option.bind_some]
    exact if_pos (by simp [one])

theorem ofLine_counted (functions files threshold : Nat) :
    ofLine? (counted functions "function" ++ " in " ++ counted files "file" ++
      " over cognitive complexity " ++ toString threshold ++ ".") =
        some ⟨functions, files, threshold⟩ := by
  have limit (front : List Char) := cutNumber_append (front ++ " over cognitive complexity ".toList)
    threshold (by simp)
  have among (front : List Char) := cutCount_counted "file" (by simp) (by simp)
    (front ++ " in ".toList) (by simp) files
  have count := cutCount_counted "function" (by simp) (by simp) [] (by simp) functions
  rw [List.nil_append] at count
  unfold ofLine?
  simp only [String.toList_append, cutMark_append, Option.bind_eq_bind, Option.bind_some, limit,
    among, count]
  rfl

end Summary

end CognitiveComplexity.Check
