import CognitiveComplexity.Proofs.Report.Entry

set_option autoImplicit false

namespace CognitiveComplexity.Check

def affected (files : List FileScore) : List FileScore :=
  files.filter fun file => !(findingsIn file).isEmpty

namespace Tally

-- The text is about these findings and this many files.
structure About (tally : Tally) (findings : List Finding) (files : Nat) : Prop where
  lines : tally.lines.toList = findings.map Finding.line
  functions : tally.functions = findings.length
  files : tally.files = files

theorem about_addFinding (tally : Tally) (before : List Finding) (files : Nat)
    (about : tally.About before files) (finding : Finding) :
    (tally.addFinding finding).About (before ++ [finding]) files where
  lines := by simp [addFinding, about.lines]
  functions := by simp [addFinding, about.functions]
  files := about.files

theorem about_addFindings (tally : Tally) (before findings : List Finding) (files : Nat)
    (about : tally.About before files) :
    (findings.foldl addFinding tally).About (before ++ findings) files := by
  induction findings generalizing tally before with
  | nil => simpa using about
  | cons finding rest ih =>
    simpa using ih _ _ (about_addFinding tally before files about finding)

theorem about_addFile (tally : Tally) (before : List FileScore)
    (about : tally.About (findings before) (affected before).length) (file : FileScore) :
    (tally.addFile file).About (findings (before ++ [file])) (affected (before ++ [file])).length := by
  have listed := about_addFindings tally _ (findingsIn file) _ about
  have whole : findings (before ++ [file]) = findings before ++ findingsIn file := by
    simp [findings]
  rw [whole]
  by_cases idle : (findingsIn file).isEmpty = true
  · have same : affected (before ++ [file]) = affected before := by simp [affected, idle]
    simpa [addFile, idle, same] using listed
  · have more : affected (before ++ [file]) = affected before ++ [file] := by
      simp [affected, idle]
    simp only [addFile, idle, more, List.length_append, List.length_singleton]
    exact ⟨listed.lines, listed.functions, congrArg (· + 1) listed.files⟩

theorem about_ofFiles (files : List FileScore) :
    (ofFiles files).About (findings files) (affected files).length := by
  have run (tally : Tally) (before : List FileScore)
      (about : tally.About (findings before) (affected before).length) :
      (files.foldl addFile tally).About (findings (before ++ files))
        (affected (before ++ files)).length := by
    induction files generalizing tally before with
    | nil => simpa using about
    | cons file rest ih => simpa using ih _ _ (about_addFile tally before about file)
  exact run empty [] ⟨rfl, rfl, rfl⟩

end Tally

theorem length_findingsIn (file : FileScore) : (findingsIn file).length = file.violationCount := by
  unfold findingsIn FileScore.violations FileScore.violationCount
  induction file.functions with
  | nil => rfl
  | cons function rest ih =>
    cases flagged : function.violation <;> simp_all

theorem violationCount_eq (files : List FileScore) : violationCount files = (findings files).length := by
  induction files with
  | nil => rfl
  | cons file rest ih =>
    have step : violationCount (file :: rest) = file.violationCount + violationCount rest := rfl
    simp [step, ih, findings, length_findingsIn]

theorem lines_eq (files : List FileScore) (threshold : Nat) :
    lines files threshold = (findings files).map Finding.line ++
      if findings files = [] then
        ["No functions exceed cognitive complexity " ++ toString threshold ++ "."]
      else
        ["", counted (findings files).length "function" ++ " in " ++
          counted (affected files).length "file" ++ " over cognitive complexity " ++
          toString threshold ++ "."] := by
  have about := Tally.about_ofFiles files
  unfold lines Tally.summary
  simp [about.lines, about.functions, about.files]

end CognitiveComplexity.Check
