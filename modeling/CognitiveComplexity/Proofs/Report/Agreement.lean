import CognitiveComplexity.Command.Outcome
import CognitiveComplexity.Proofs.Function.Name
import CognitiveComplexity.Proofs.Path.Listing
import CognitiveComplexity.Proofs.Report.Tally
import CognitiveComplexity.Proofs.Text.Boundary

set_option autoImplicit false

namespace CognitiveComplexity

/-- The text of a file, if it is analysed: it can be read, is not binary and is UTF-8. -/
def Location.sourceText? (working : Location) (path : Path) : Option String :=
  match working.readBytes path with
  | .error _ => none
  | .ok content => if isBinary content then none else Bytes.decode? content

theorem Path.display_text (path : Path) (text : String) (bytes : path.bytes = Bytes.ofString text) :
    path.display = text := by
  have decodes : Bytes.decode? path.bytes = some text := (Bytes.decode_eq_some _ _).mpr bytes
  simp [display, Text.lossy, Text.characters, Text.ofCharacters, decodes, Function.comp_def]

namespace Check.Entry

def ofScope (threshold : Nat) (path : Path) (stream : List Token) (scope : Scope) : Entry :=
  let opener := stream.getD scope.body.start default
  ⟨path.display, opener.line, opener.column, Bytes.decode scope.name, scope.body.score stream, threshold⟩

def inSource (threshold : Nat) (path : Path) (source : String) : List Entry :=
  let stream := Token.stream source
  ((Scope.all stream).filter fun scope => threshold < scope.body.score stream).map
    (ofScope threshold path stream)

def inFile (working : Location) (threshold : Nat) (path : Path) : List Entry :=
  ((working.sourceText? path).map (inSource threshold path)).getD []

end Check.Entry

namespace Bytes

theorem mem_decode (bytes : Bytes) (c : Char) (member : c ∈ (decode bytes).toList) :
    ∀ b ∈ String.utf8EncodeChar c, b ∈ bytes := by
  intro b encoded
  unfold decode at member
  cases decodes : decode? bytes with
  | none => simp [decodes] at member
  | some text =>
    rw [(decode_eq_some _ _).mp decodes, ofString_eq_flatMap, List.mem_flatMap]
    exact ⟨c, by simpa [decodes] using member, encoded⟩

end Bytes

theorem FunctionScore.name_unspaced (threshold : Nat) (source : String) (function : FunctionScore)
    (member : function ∈ ofSource threshold source) : ' ' ∉ function.name.toList := by
  obtain ⟨scope, found, rfl⟩ := List.mem_map.mp member
  intro spaced
  have blank : (0x20 : UInt8) ∈ scope.name := Bytes.mem_decode scope.name ' ' spaced _ (by decide)
  rcases Scope.name_word _ scope found with anonymous | word
  · rw [anonymous] at blank
    revert blank
    decide +kernel
  · cases word _ blank

namespace Location

-- The score of a file, if its text can be read and has a function.
def scored? (working : Location) (threshold : Nat) (path : Path) : Option FileScore :=
  (working.sourceText? path).bind fun source =>
    let functions := FunctionScore.ofSource threshold source
    if functions = [] then none else some ⟨path, functions⟩

theorem analyseFile_scored (working : Location) (threshold : Nat) (path : Path) :
    (analyseFile working threshold path).2 = working.scored? threshold path := by
  unfold analyseFile analyse scored? sourceText?
  cases working.readBytes path with
  | error fault => rfl
  | ok content =>
    simp only
    split
    · rfl
    · cases Bytes.decode? content with
      | none => rfl
      | some source =>
        simp only [Option.bind_some]
        cases FunctionScore.ofSource threshold source <;> rfl

end Location

namespace Check

theorem findingsIn_ofSource (threshold : Nat) (path : Path) (source : String) :
    (findingsIn ⟨path, FunctionScore.ofSource threshold source⟩).map Entry.ofFinding =
      Entry.inSource threshold path source := by
  unfold findingsIn FileScore.violations FunctionScore.ofSource Entry.inSource
  simp only
  induction Scope.all (Token.stream source) with
  | nil => rfl
  | cons scope rest ih =>
    by_cases above : threshold < scope.body.score (Token.stream source)
    · simp [FunctionScore.ofScope, Violation.ofScore?, above] at ih ⊢
      exact ⟨rfl, ih⟩
    · simp [FunctionScore.ofScope, Violation.ofScore?, above] at ih ⊢
      exact ih

-- What an analysed file contributes: nothing, or its functions.
theorem analyseFile_cases (working : Location) (threshold : Nat) (path : Path) :
    ((analyseFile working threshold path).2 = none ∧ Entry.inFile working threshold path = []) ∨
      ∃ source, working.sourceText? path = some source ∧
        (analyseFile working threshold path).2 =
          some ⟨path, FunctionScore.ofSource threshold source⟩ := by
  rw [working.analyseFile_scored threshold path, Location.scored?, Entry.inFile]
  cases text : working.sourceText? path with
  | none => exact .inl ⟨rfl, rfl⟩
  | some source =>
    by_cases idle : FunctionScore.ofSource threshold source = []
    · have empty := findingsIn_ofSource threshold path source
      rw [idle] at empty
      exact .inl (by simp [idle, ← empty, findingsIn, FileScore.violations])
    · exact .inr ⟨source, rfl, by simp [idle]⟩

section Analysed

variable (working : Location) (threshold : Nat) (paths : List Path)

def scored : List FileScore := (paths.map (analyseFile working threshold)).filterMap (·.2)

theorem findings_scored :
    (findings (scored working threshold paths)).map Entry.ofFinding =
      paths.flatMap (Entry.inFile working threshold) := by
  induction paths with
  | nil => rfl
  | cons path rest ih =>
    rcases analyseFile_cases working threshold path with ⟨drops, idle⟩ | ⟨source, text, kept⟩
    · simpa [scored, drops, idle] using ih
    · have here : Entry.inFile working threshold path = Entry.inSource threshold path source := by
        simp [Entry.inFile, text]
      have split : findings (scored working threshold (path :: rest)) =
          findingsIn ⟨path, FunctionScore.ofSource threshold source⟩ ++
            findings (scored working threshold rest) := by
        simp [scored, kept, findings]
      rw [split, List.map_append, findingsIn_ofSource, ih, List.flatMap_cons, here]

theorem affected_scored :
    (affected (scored working threshold paths)).length =
      (paths.filter fun path => !(Entry.inFile working threshold path).isEmpty).length := by
  induction paths with
  | nil => rfl
  | cons path rest ih =>
    rcases analyseFile_cases working threshold path with ⟨drops, idle⟩ | ⟨source, text, kept⟩
    · simpa [scored, drops, idle] using ih
    · have same : (findingsIn ⟨path, FunctionScore.ofSource threshold source⟩).isEmpty =
          (Entry.inFile working threshold path).isEmpty := by
        have here := findingsIn_ofSource threshold path source
        simp [Entry.inFile, text, ← here]
      have split : scored working threshold (path :: rest) =
          ⟨path, FunctionScore.ofSource threshold source⟩ :: scored working threshold rest := by
        simp [scored, kept]
      rw [split, affected, List.filter_cons, List.filter_cons, same]
      split
      · simpa [affected] using ih
      · simpa [affected] using ih

theorem mem_scored (file : FileScore) (member : file ∈ scored working threshold paths) :
    ∃ source, file.functions = FunctionScore.ofSource threshold source := by
  obtain ⟨result, analysed, kept⟩ := List.mem_filterMap.mp member
  obtain ⟨path, _, rfl⟩ := List.mem_map.mp analysed
  rcases analyseFile_cases working threshold path with ⟨drops, _⟩ | ⟨source, _, keeps⟩
  · rw [drops] at kept
    cases kept
  · rw [keeps] at kept
    cases kept
    exact ⟨source, rfl⟩

theorem unspaced_functions : ∀ file ∈ scored working threshold paths, ∀ function ∈ file.functions,
    ' ' ∉ function.name.toList := by
  intro file scores function listed
  obtain ⟨source, functions⟩ := mem_scored working threshold paths file scores
  exact FunctionScore.name_unspaced threshold source function (functions ▸ listed)

theorem unspaced_scored :
    ∀ finding ∈ findings (scored working threshold paths), ' ' ∉ finding.function.name.toList := by
  intro finding member
  obtain ⟨file, scores, found⟩ := List.mem_flatMap.mp member
  simp only [findingsIn, FileScore.violations, List.mem_map, List.mem_filterMap,
    Option.map_eq_some_iff] at found
  obtain ⟨_, ⟨function, listed, violation, _, rfl⟩, rfl⟩ := found
  exact unspaced_functions working threshold paths file scores function listed

end Analysed

theorem ofTarget_eq (working : Location) (target : Target) (threshold : Nat) (analysis : Analysis)
    (succeeds : Analysis.ofTarget working target threshold = .ok analysis) :
    ∃ paths, target.sourceFiles working = .ok paths ∧ analysis.files = scored working threshold paths := by
  unfold Analysis.ofTarget at succeeds
  cases listed : target.sourceFiles working with
  | error error => rw [listed] at succeeds; cases succeeds
  | ok paths =>
    rw [listed] at succeeds
    cases succeeds
    exact ⟨paths, rfl, rfl⟩

theorem sourceFiles_ordered (working : Location) (target : Target) (paths : List Path)
    (listed : target.sourceFiles working = .ok paths) :
    paths.Pairwise fun one other => one.lessOrEqual other = true := by
  unfold Target.sourceFiles at listed
  split at listed
  next => cases listed
  next =>
    split at listed
    next =>
      cases listed
      exact List.pairwise_singleton _ _
    next =>
      cases listed
      exact Path.pairwise_sort _

theorem line_ne_noneOver (finding : Finding) (threshold : Nat) :
    finding.line ≠ "No functions exceed cognitive complexity " ++ toString threshold ++ "." := by
  have bracket : "()".toList.getLast? = some ')' := by decide
  have stop : ".".toList.getLast? = some '.' := by decide
  intro same
  have ends := congrArg (fun text => text.toList.getLast?) same
  simp only [Entry.line_eq, String.toList_append, List.getLast?_append, bracket, stop,
    Option.some_or] at ends
  cases ends

theorem counted_ne_noneOver (count threshold : Nat) (noun text : String) :
    counted count noun ++ text ≠
      "No functions exceed cognitive complexity " ++ toString threshold ++ "." := by
  have letter : "No functions exceed cognitive complexity ".toList.head? = some 'N' := by decide
  intro same
  have starts := congrArg (fun text => text.toList.head?) same
  have digits := Line.isDigit_toString count
  cases spelled : (toString count).toList with
  | nil => simp [Nat.toDigits_ne_nil] at spelled
  | cons first rest =>
    rw [spelled] at digits
    simp only [counted, String.toList_append, List.head?_append, letter, spelled, List.head?_cons,
      Option.some_or, Option.some.injEq] at starts
    have digit := digits first List.mem_cons_self
    rw [starts] at digit
    cases digit

-- Neither the line of a finding nor the count of them reads like the line that there is none.
theorem noneOver_mem_iff (found : List Finding) (affected threshold : Nat) :
    let noneOver := "No functions exceed cognitive complexity " ++ toString threshold ++ "."
    let someOver := counted found.length "function" ++ " in " ++ counted affected "file" ++
      " over cognitive complexity " ++ toString threshold ++ "."
    noneOver ∈ found.map Finding.line ++ (if found = [] then [noneOver] else ["", someOver]) ↔
      found.length = 0 := by
  intro noneOver someOver
  have unlike (finding : Finding) : finding.line ≠ noneOver := line_ne_noneOver finding threshold
  have filled : noneOver ≠ "" := by simp [noneOver, String.append_eq_empty_iff]
  have different : someOver ≠ noneOver := by
    simp only [someOver, String.append_assoc]
    exact counted_ne_noneOver found.length threshold _ _
  by_cases none : found = []
  · simp [none]
  · simp [none, unlike, filled, different.symm]

theorem mem_listed_iff (working : Location) (threshold : Nat) (paths : List Path) (path : Path)
    (member : path ∈ paths) (source : String) (text : working.sourceText? path = some source)
    (scope : Scope) (resolved : scope ∈ Scope.all (Token.stream source)) :
    Entry.ofScope threshold path (Token.stream source) scope ∈
        paths.flatMap (Entry.inFile working threshold) ↔
      threshold < scope.body.score (Token.stream source) := by
  have inside (path : Path) (source : String) (text : working.sourceText? path = some source) :
      Entry.inFile working threshold path = Entry.inSource threshold path source := by
    simp [Entry.inFile, text]
  constructor
  · intro listed
    obtain ⟨other, _, found⟩ := List.mem_flatMap.mp listed
    cases text' : working.sourceText? other with
    | none => simp [Entry.inFile, text'] at found
    | some source' =>
      rw [inside other source' text'] at found
      obtain ⟨scope', filtered, same⟩ := List.mem_map.mp found
      have above := of_decide_eq_true (List.mem_filter.mp filtered).2
      have score := congrArg Entry.score same
      simp only [Entry.ofScope] at score
      rwa [← score]
  · intro above
    refine List.mem_flatMap.mpr ⟨path, member, ?_⟩
    rw [inside path source text]
    exact List.mem_map_of_mem (List.mem_filter.mpr ⟨resolved, decide_eq_true above⟩)

theorem outcome_ofCheck (wording : Settings.Wording) (working : Location) (target : Target)
    (threshold : Nat) (analysis : Analysis)
    (succeeds : Analysis.ofTarget working target threshold = .ok analysis) (selection : Selection)
    (json : Bool) (verbosity : Nat) (prepared : selection.prepare working = .ok (threshold, target)) :
    let outcome := Outcome.ofRequest wording working (.run verbosity (.check selection json))
    outcome.output = render analysis.files threshold json ∧
      outcome.status = if 0 < violationCount analysis.files then 1 else 0 := by
  unfold Outcome.ofRequest Outcome.ofRun Command.run Selection.run
  simp [prepared, succeeds, Report.ofCheck]

theorem forms_agree (working : Location) (target : Target) (threshold : Nat) (analysis : Analysis)
    (succeeds : Analysis.ofTarget working target threshold = .ok analysis) :
    ∃ (paths : List Path) (shown : List String) (summary : String) (document : Json),
      let listed := paths.flatMap (Entry.inFile working threshold)
      let affected := paths.filter fun path => !(Entry.inFile working threshold path).isEmpty
      let noneOver := "No functions exceed cognitive complexity " ++ toString threshold ++ "."
      let lines := shown ++ if listed = [] then [noneOver] else ["", summary]
      target.sourceFiles working = .ok paths ∧
      paths.Pairwise (fun one other => one.lessOrEqual other = true) ∧
      (∀ path ∈ paths, ∀ text, path.bytes = Bytes.ofString text → path.display = text) ∧
      (∀ path ∈ paths, ∀ source, working.sourceText? path = some source →
        (Scope.all (Token.stream source)).Pairwise (·.keyword < ·.keyword) ∧
        ∀ scope ∈ Scope.all (Token.stream source),
          (Entry.ofScope threshold path (Token.stream source) scope ∈ listed ↔
            threshold < scope.body.score (Token.stream source))) ∧
      render analysis.files threshold false = String.join (lines.map (· ++ "\n")) ∧
      shown.map Entry.ofLine? = listed.map some ∧
      Summary.ofLine? summary = some ⟨listed.length, affected.length, threshold⟩ ∧
      (noneOver ∈ lines ↔ listed.length = 0) ∧
      Json.read (render analysis.files threshold true) = some document ∧
      document.readAll? Entry.ofJson? = some listed ∧
      violationCount analysis.files = listed.length ∧
      ∀ (wording : Settings.Wording) (selection : Selection) (json : Bool) (verbosity : Nat),
        selection.prepare working = .ok (threshold, target) →
          let outcome := Outcome.ofRequest wording working (.run verbosity (.check selection json))
          outcome.output = render analysis.files threshold json ∧
            outcome.status = if 0 < listed.length then 1 else 0 := by
  obtain ⟨paths, sources, files⟩ := ofTarget_eq working target threshold analysis succeeds
  have entries := findings_scored working threshold paths
  have names := unspaced_scored working threshold paths
  have outcome (wording : Settings.Wording) :=
    outcome_ofCheck wording working target threshold analysis succeeds
  have text := lines_eq (scored working threshold paths) threshold
  have count := violationCount_eq (scored working threshold paths)
  have document : Json.read (render (scored working threshold paths) threshold true) =
      some (JsonText.array ((findings (scored working threshold paths)).map Finding.json)).plain :=
    Json.read_render _
  rw [violationCount_eq] at outcome
  rw [affected_scored] at text
  rw [files] at outcome ⊢
  generalize findings (scored working threshold paths) = found
    at entries names outcome text count document
  have length : (paths.flatMap (Entry.inFile working threshold)).length = found.length := by
    rw [← entries, List.length_map]
  have empty : paths.flatMap (Entry.inFile working threshold) = [] ↔ found = [] := by
    rw [← entries, List.map_eq_nil_iff]
  refine ⟨paths, found.map Finding.line, _, _, sources, sourceFiles_ordered working target paths sources,
    fun path _ => path.display_text, ?_, ?_, ?_, Summary.ofLine_counted _ _ _, ?_, document, ?_, ?_, ?_⟩
  next =>
    intro path member source text
    exact ⟨Scope.keywords_increase _, mem_listed_iff working threshold paths path member source text⟩
  next => simp only [render, Check.text, text, length, empty, Bool.false_eq_true, if_false]
  next =>
    rw [← entries, List.map_map, List.map_map]
    exact List.map_congr_left fun finding member => Entry.ofLine_line finding (names finding member)
  next =>
    simp only [length, empty]
    exact noneOver_mem_iff found _ threshold
  next =>
    rw [← entries]
    exact Json.readAll_plain _ _ _ Entry.ofJson_json found
  next => rw [count, length]
  next =>
    intro wording selection json verbosity prepared
    rw [length]
    exact outcome wording selection json verbosity prepared

def sampleEntries : List (Bytes × FileTree) :=
  [(Bytes.ofString "a.php", .file (.ok (Bytes.ofString "<?php function g() \x7b \x7d"))),
    (Bytes.ofString "c.php", .file (.error .denied)),
    (Bytes.ofString "src", .directory .nothing
      [(Bytes.ofString "b.php",
        .file (.ok (Bytes.ofString "<?php function f($x) \x7b if ($x) \x7b return 1; \x7d \x7d")))]),
    (Bytes.ofString "note.txt", .file (.ok []))]

-- A function without score, a file that cannot be read, a function with a score, and a note.
def sample : Location :=
  .top (.directory .nothing [(Bytes.ofString "code", .directory .nothing sampleEntries)])

def sampleTarget : Target := ⟨.ofString "/code", false, .default⟩

def sampleLocation : Location :=
  sample.child (Bytes.ofString "code") (.directory .nothing sampleEntries)

def samplePaths : List Path :=
  [.ofString "/code/a.php", .ofString "/code/c.php", .ofString "/code/src/b.php"]

theorem sample_sourceFiles : sampleTarget.sourceFiles sample = .ok samplePaths := by
  have leads : sample.find sampleTarget.path = .ok sampleLocation := rfl
  have walked : sampleTarget.found sample sampleLocation =
      [.file [Bytes.ofString "a.php"], .file [Bytes.ofString "c.php"],
        .file [Bytes.ofString "src", Bytes.ofString "b.php"], .file [Bytes.ofString "note.txt"]] := by
    simp only [Target.found, sampleLocation, sampleEntries, Location.tree, Location.child,
      FileTree.entries, FileTree.refusal, List.head?_cons, Option.map_some, Option.getD_some,
      Target.walk]
    decide +kernel
  apply Target.sourceFiles_of_found sample _ sampleLocation _ _ leads rfl walked
  next => decide +kernel
  next => decide +kernel

theorem sample_analysed : ∃ analysis, Analysis.ofTarget sample sampleTarget 0 = .ok analysis := by
  unfold Analysis.ofTarget
  rw [sample_sourceFiles]
  exact ⟨_, rfl⟩

theorem forms_agree_sample :
    ∃ (analysis : Analysis) (shown : List String) (summary : String) (document : Json),
      Analysis.ofTarget sample sampleTarget 0 = .ok analysis ∧
      render analysis.files 0 false = String.join ((shown ++ ["", summary]).map (· ++ "\n")) ∧
      shown.map Entry.ofLine? = [some ⟨"/code/src/b.php", 1, 22, "f", 1, 0⟩] ∧
      Summary.ofLine? summary = some ⟨1, 1, 0⟩ ∧
      Json.read (render analysis.files 0 true) = some document ∧
      document.readAll? Entry.ofJson? = some [⟨"/code/src/b.php", 1, 22, "f", 1, 0⟩] := by
  have listed : samplePaths.flatMap (Entry.inFile sample 0) =
      [⟨"/code/src/b.php", 1, 22, "f", 1, 0⟩] := by
    decide +kernel
  have affected : samplePaths.filter (fun path => !(Entry.inFile sample 0 path).isEmpty) =
      [.ofString "/code/src/b.php"] := by
    decide +kernel
  obtain ⟨analysis, succeeds⟩ := sample_analysed
  obtain ⟨paths, shown, summary, document, sources, _, _, _, text, read, counts, _, json, entries, _⟩ :=
    forms_agree sample sampleTarget 0 analysis succeeds
  rw [sample_sourceFiles, Except.ok.injEq] at sources
  subst sources
  rw [listed] at text read counts entries
  rw [affected] at counts
  exact ⟨analysis, shown, summary, document, succeeds, text, read, counts, json, entries⟩

end Check

end CognitiveComplexity
