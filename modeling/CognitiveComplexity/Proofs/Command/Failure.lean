import CognitiveComplexity.Proofs.Command.Settings
import CognitiveComplexity.Proofs.Report.Agreement

set_option autoImplicit false

namespace CognitiveComplexity

namespace Selection

variable (selection : Selection) (working : Location) (file : Option Path)

-- The entries of the settings file, if there is one that can be read.
def entries : List (String × Toml.Value) :=
  ((file.bind fun path => (working.readText path).toOption).bind Toml.document?).getD []

def unreadable : List Settings.Error :=
  file.toList.flatMap fun path => ((errorOf? (working.readText path)).map (.unreadable path)).toList

def unfit : List Settings.Error :=
  file.toList.flatMap fun path => (working.readText path).toOption.toList.flatMap (Settings.misfits path)

def zeroThresholds : List Settings.Error :=
  Settings.zeroThreshold (Settings.thresholdIn? (entries working file)) ++
    Settings.zeroThreshold selection.threshold

def invalidGlobs : List Settings.Error :=
  (((Settings.skipIn? (entries working file)).getD []).filterMap fun glob =>
    errorOf? (Glob.read .skip glob)).map .invalidGlob

def settingsFailures : List Settings.Error :=
  unreadable working file ++ unfit working file ++ selection.zeroThresholds working file ++
    invalidGlobs working file

/-- All that is wrong with a run, in the order in which it is looked at. -/
def failures : List Failure :=
  (selection.settingsFailures working file).map .settings ++
    ((errorOf? (working.find selection.path)).map fun fault => .target ⟨selection.path, fault⟩).toList

-- The threshold of the command line, or else that of the settings file, or else 15.
def effectiveThreshold : Nat :=
  (selection.threshold.or (Settings.thresholdIn? (entries working file))).getD 15

section Chosen

variable (chosen : file = Settings.file? working selection.config selection.path)

include chosen

theorem resolve_spec :
    errorOf? (Settings.resolve working selection.config selection.path) =
        (unreadable working file ++ unfit working file ++
          Settings.zeroThreshold (Settings.thresholdIn? (entries working file))).head? ∧
      ∀ settings, Settings.resolve working selection.config selection.path = .ok settings →
        settings = Settings.written (entries working file) ∧ settings.threshold ≠ 0 := by
  unfold Settings.resolve unreadable unfit entries
  rw [← chosen]
  cases file with
  | none =>
    refine ⟨rfl, ?_⟩
    intro settings same
    cases same
    exact ⟨rfl, by decide⟩
  | some path =>
    simp only [Settings.load, Option.toList_some, List.flatMap_singleton, Option.bind_some]
    cases working.readText path with
    | error fault =>
      refine ⟨rfl, ?_⟩
      intro settings taken
      cases taken
    | ok text =>
      simp only [Except.toOption, Option.toList_some, List.flatMap_singleton, Option.bind_some]
      exact Settings.parse_spec text path

theorem settings_spec :
    errorOf? (selection.settings working) =
        (unreadable working file ++ unfit working file ++
          selection.zeroThresholds working file).head? ∧
      ∀ settings, selection.settings working = .ok settings →
        settings = { Settings.written (entries working file) with
          threshold := selection.effectiveThreshold working file } ∧ settings.threshold ≠ 0 := by
  obtain ⟨fails, succeeds⟩ := selection.resolve_spec working file chosen
  unfold settings zeroThresholds
  constructor
  next =>
    rw [← List.append_assoc]
    apply errorOf_bind _ _ _ _ fails
    intro settings resolved
    exact (settings.withThreshold_spec selection.threshold (succeeds settings resolved).2).1
  next =>
    intro settings taken
    obtain ⟨base, resolved, raised⟩ := bind_eq_ok taken
    obtain ⟨same, valid⟩ := succeeds base resolved
    obtain ⟨whole, positive⟩ :=
      (base.withThreshold_spec selection.threshold valid).2 settings raised
    refine ⟨?_, positive⟩
    rw [whole, same, effectiveThreshold, Option.getD_or]
    rfl

theorem prepare_spec :
    errorOf? (selection.prepare working) = (selection.settingsFailures working file).head? ∧
      ∀ threshold target, selection.prepare working = .ok (threshold, target) →
        threshold = selection.effectiveThreshold working file ∧ threshold ≠ 0 ∧
        target.path = selection.path ∧ target.includeTests = selection.includeTests ∧
        SourceFilter.make (Settings.written (entries working file)).extensions
          (Settings.written (entries working file)).skip = .ok target.filter := by
  obtain ⟨fails, succeeds⟩ := selection.settings_spec working file chosen
  unfold prepare settingsFailures
  constructor
  next =>
    apply errorOf_bind _ _ _ _ fails
    intro settings given
    rw [errorOf_map, settings.filter_spec, (succeeds settings given).1]
    rfl
  next =>
    intro threshold target prepared
    obtain ⟨settings, given, built⟩ := bind_eq_ok prepared
    obtain ⟨filter, made, ok⟩ := bind_eq_ok built
    obtain ⟨whole, positive⟩ := succeeds settings given
    cases ok
    refine ⟨by rw [whole], positive, rfl, rfl, ?_⟩
    rw [whole] at made
    exact Settings.make_of_filter _ _ made

end Chosen

end Selection

theorem errorOf_sourceFiles (working : Location) (target : Target) :
    errorOf? (target.sourceFiles working) =
      (errorOf? (working.find target.path)).map fun fault => ⟨target.path, fault⟩ := by
  unfold Target.sourceFiles
  cases working.find target.path with
  | error fault => rfl
  | ok location =>
    simp only
    split <;> rfl

theorem errorOf_ofTarget (working : Location) (target : Target) (threshold : Nat) :
    errorOf? (Analysis.ofTarget working target threshold) =
      (errorOf? (working.find target.path)).map fun fault => ⟨target.path, fault⟩ := by
  unfold Analysis.ofTarget
  rw [errorOf_map, errorOf_sourceFiles]

namespace Selection

variable (selection : Selection) (working : Location) (report : Nat → List FileScore → Report)

theorem loading_debug : ∀ entry ∈ selection.loading working, entry.level = .debug := by
  unfold loading
  split
  next => simp
  next => split <;> simp

-- The three ways in which a run ends.
theorem run_cases :
    (∃ error, selection.prepare working = .error error ∧
      selection.run working report = ⟨selection.loading working, .error (.settings error)⟩) ∨
    ∃ threshold target, selection.prepare working = .ok (threshold, target) ∧
      let prepared := selection.loading working ++ [⟨.debug, "threshold " ++ toString threshold⟩]
      (∃ error, Analysis.ofTarget working target threshold = .error error ∧
        selection.run working report = ⟨prepared, .error (.target error)⟩) ∨
      ∃ analysis, Analysis.ofTarget working target threshold = .ok analysis ∧
        let shown := report threshold analysis.files
        selection.run working report = ⟨prepared ++ analysis.log ++ shown.closing, .ok shown⟩ := by
  unfold run
  cases selection.prepare working with
  | error error => exact .inl ⟨error, rfl, rfl⟩
  | ok both =>
    refine .inr ⟨both.1, both.2, rfl, ?_⟩
    simp only
    cases Analysis.ofTarget working both.2 both.1 with
    | error error => exact .inl ⟨error, rfl, rfl⟩
    | ok analysis => exact .inr ⟨analysis, rfl, rfl⟩

theorem run_error_debug (failure : Failure)
    (fails : (selection.run working report).result = .error failure) :
    ∀ entry ∈ (selection.run working report).log, entry.level = .debug := by
  have quiet := selection.loading_debug working
  rcases selection.run_cases working report with
    ⟨_, _, ran⟩ | ⟨threshold, _, _, ⟨_, _, ran⟩ | ⟨_, _, ran⟩⟩
  next =>
    rw [ran]
    exact quiet
  next =>
    rw [ran]
    intro entry member
    rcases List.mem_append.mp member with early | last
    next => exact quiet entry early
    next => rw [List.mem_singleton.mp last]
  next =>
    rw [ran] at fails
    cases fails

section Chosen

variable (file : Option Path) (chosen : file = Settings.file? working selection.config selection.path)

include chosen

theorem errorOf_run :
    errorOf? (selection.run working report).result = (selection.failures working file).head? := by
  obtain ⟨fails, succeeds⟩ := selection.prepare_spec working file chosen
  rw [failures, List.head?_append, List.head?_map, ← fails, Option.head?_toList]
  rcases selection.run_cases working report with
    ⟨error, prepared, ran⟩ | ⟨threshold, target, prepared, ran⟩
  next =>
    rw [ran, prepared]
    rfl
  next =>
    obtain ⟨_, _, path, _⟩ := succeeds threshold target prepared
    have missing := congrArg (Option.map Failure.target) (errorOf_ofTarget working target threshold)
    rw [Option.map_map, path] at missing
    rw [prepared]
    rcases ran with ⟨error, analysed, ran⟩ | ⟨analysis, analysed, ran⟩
    next =>
      rw [analysed] at missing
      rw [ran]
      exact missing
    next =>
      rw [analysed] at missing
      rw [ran]
      exact missing

theorem run_eq_ok (shown : Report) (succeeds : (selection.run working report).result = .ok shown) :
    ∃ filter paths,
      selection.effectiveThreshold working file ≠ 0 ∧
      SourceFilter.make (Settings.written (entries working file)).extensions
        (Settings.written (entries working file)).skip = .ok filter ∧
      Target.sourceFiles ⟨selection.path, selection.includeTests, filter⟩ working = .ok paths ∧
      shown = report (selection.effectiveThreshold working file)
        (paths.filterMap (working.scored? (selection.effectiveThreshold working file))) := by
  rcases selection.run_cases working report with
    ⟨_, _, ran⟩ | ⟨threshold, target, prepared, ⟨_, _, ran⟩ | ⟨analysis, analysed, ran⟩⟩
  next =>
    rw [ran] at succeeds
    cases succeeds
  next =>
    rw [ran] at succeeds
    cases succeeds
  next =>
    rw [ran] at succeeds
    cases succeeds
    obtain ⟨same, positive, path, tests, made⟩ :=
      (selection.prepare_spec working file chosen).2 threshold target prepared
    obtain ⟨paths, sources, files⟩ := Check.ofTarget_eq working target threshold analysis analysed
    have kept : analysis.files = paths.filterMap (working.scored? threshold) := by
      rw [files, Check.scored, List.filterMap_map]
      exact List.filterMap_congr fun path _ => working.analyseFile_scored threshold path
    rw [kept, ← same, ← path, ← tests]
    exact ⟨target.filter, paths, positive, made, sources, rfl⟩

end Chosen

end Selection

theorem joinLines_ne_empty (lines : List String) (filled : lines ≠ []) :
    String.join (lines.map (· ++ "\n")) ≠ "" := by
  obtain ⟨first, rest, rfl⟩ := List.exists_cons_of_ne_nil filled
  simp [String.append_eq_empty_iff]

theorem Check.render_ne_empty (files : List FileScore) (threshold : Nat) (asJson : Bool) :
    render files threshold asJson ≠ "" := by
  unfold render
  split
  next => simp [String.append_eq_empty_iff]
  next =>
    apply joinLines_ne_empty
    rw [lines_eq]
    split <;> simp

theorem Scores.render_ne_empty (options : Options) (shown : List FileScore) :
    render options shown ≠ "" := by
  unfold render
  split
  next => simp [String.append_eq_empty_iff]
  next =>
    apply joinLines_ne_empty
    split
    next => simp
    next => split <;> simp [functionLines, tableLines]

theorem Log.render_debug (verbosity : Nat) (entries : List Entry)
    (quiet : ∀ entry ∈ entries, entry.level = .debug) (low : verbosity < 2) :
    render (.ofVerbosity verbosity) entries = "" := by
  have shows : (Level.ofVerbosity verbosity).rank < Level.debug.rank := by
    match verbosity, low with
    | 0, _ => decide
    | 1, _ => decide
  have none : entries.filter (·.level.rank ≤ (Level.ofVerbosity verbosity).rank) = [] := by
    rw [List.filter_eq_nil_iff]
    intro entry member
    rw [quiet entry member, decide_eq_true_eq]
    omega
  rw [render, none]
  rfl

-- What a command analyses, and how it reports on it.
def Command.analysis? : Command → Option (Selection × (Nat → List FileScore → Report))
  | .check selection json => some (selection, Report.ofCheck json)
  | .scores selection options => some (selection, fun _ => Report.ofScores options)
  | .completions _ => none

theorem Command.analysis_spec (command : Command) (selection : Selection)
    (report : Nat → List FileScore → Report) (asks : command.analysis? = some (selection, report)) :
    (∀ working, command.run working = selection.run working report) ∧
      ∀ threshold files,
        (report threshold files).status ≠ 2 ∧ (report threshold files).text ≠ "" := by
  cases command with
  | check selection json =>
    cases asks
    refine ⟨fun _ => rfl, ?_⟩
    intro threshold files
    refine ⟨?_, Check.render_ne_empty files threshold json⟩
    simp only [Report.ofCheck]
    split <;> decide
  | scores selection options =>
    cases asks
    refine ⟨fun _ => rfl, ?_⟩
    intro threshold files
    exact ⟨Nat.zero_ne_add_one 1, Scores.render_ne_empty options _⟩
  | completions shell => cases asks

theorem Selection.target_failure (selection : Selection) (working : Location) (file : Option Path)
    (error : TargetError) :
    .target error ∈ selection.failures working file ↔
      error.path = selection.path ∧ working.find selection.path = .error error.fault := by
  obtain ⟨path, fault⟩ := error
  simp only [failures, List.mem_append, List.mem_map, reduceCtorEq, and_false, exists_false, false_or,
    Option.mem_toList, Option.map_eq_some_iff, Failure.target.injEq, TargetError.mk.injEq]
  cases working.find selection.path with
  | ok location => simp [errorOf?]
  | error cause =>
    simp only [errorOf?, Option.some.injEq, Except.error.injEq]
    constructor
    next =>
      rintro ⟨_, rfl, rfl, rfl⟩
      exact ⟨rfl, rfl⟩
    next =>
      rintro ⟨rfl, rfl⟩
      exact ⟨_, rfl, rfl, rfl⟩

namespace Outcome

-- A settings file with a glob that is no glob.
def unclosedGlob : Location :=
  .top (.directory .nothing
    [(Bytes.ofString "cogsniff.toml", .file (.ok (Bytes.ofString "skip = ['[']")))])

def faultyWords : List Bytes :=
  ["check", "--config", "cogsniff.toml", "--max-cognitive-complexity", "0", "missing"].map
    Bytes.ofString

def faultySelection : Selection := ⟨.ofString "missing", false, some (.ofString "cogsniff.toml"), some 0⟩

def soundSelection : Selection := ⟨.ofString "/code", false, none, none⟩

theorem sample_fileFor (file : Option Path)
    (settings : Settings.FileFor Check.sample none (.ofString "/code") file) : file = none := by
  have noFile : Check.sample.hasFile (.ofString "/code") = false := by decide +kernel
  have noSettings : Check.sample.hasFile
      (.join (.ofString "/code") (Bytes.ofString "cogsniff.toml")) = false := by
    decide +kernel
  cases settings with
  | absent => rfl
  | asked _ given => cases given
  | beside path _ beside there =>
    obtain ⟨directory, around, rfl, _⟩ := beside
    cases around with
    | itself =>
      rw [← Location.hasFile_iff, noSettings] at there
      cases there
    | parent directory isFile =>
      rw [← Location.hasFile_iff, noFile] at isFile
      cases isFile

def soundWords : List Bytes := ["check", "/code"].map Bytes.ofString

def shortWording : Settings.Wording := fun _ _ => "unfit"

end Outcome

end CognitiveComplexity
