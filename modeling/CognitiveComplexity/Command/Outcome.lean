import CognitiveComplexity.Command.Request
import CognitiveComplexity.Report.Check

set_option autoImplicit false

namespace CognitiveComplexity

inductive Failure where
  | settings (error : Settings.Error)
  | target (error : TargetError)
  deriving Repr

def Failure.message (wording : Settings.Wording) : Failure → String
  | .settings error => error.message wording
  | .target error => error.message

structure Report where
  status : Nat
  text : String
  closing : List Log.Entry
  deriving DecidableEq, Repr

def Report.ofCheck (json : Bool) (threshold : Nat) (files : List FileScore) : Report :=
  { status := if 0 < Check.violationCount files then 1 else 0
    text := Check.render files threshold json
    closing := [Check.closing files threshold] }

def Report.ofScores (options : Scores.Options) (files : List FileScore) : Report :=
  { status := 0
    text := Scores.render options (Scores.select options files)
    closing := [] }

structure Run where
  log : List Log.Entry
  result : Except Failure Report
  deriving Repr

namespace Selection

def settings (selection : Selection) (working : Location) : Except Settings.Error Settings := do
  (← Settings.resolve working selection.config selection.path).withThreshold selection.threshold

def prepare (selection : Selection) (working : Location) :
    Except Settings.Error (Nat × Target) := do
  let settings ← selection.settings working
  let filter ← settings.filter
  return (settings.threshold, ⟨selection.path, selection.includeTests, filter⟩)

def loading (selection : Selection) (working : Location) : List Log.Entry :=
  match Settings.file? working selection.config selection.path with
  | none => []
  | some path =>
    match Settings.load working path with
    | .error _ => []
    | .ok _ => [⟨.debug, "loaded config from " ++ path.display⟩]

def run (selection : Selection) (working : Location) (report : Nat → List FileScore → Report) : Run :=
  let loading := selection.loading working
  match selection.prepare working with
  | .error error => ⟨loading, .error (.settings error)⟩
  | .ok (threshold, target) =>
    let prepared := loading ++ [⟨.debug, "threshold " ++ toString threshold⟩]
    match Analysis.ofTarget working target threshold with
    | .error error => ⟨prepared, .error (.target error)⟩
    | .ok analysis =>
      let report := report threshold analysis.files
      ⟨prepared ++ analysis.log ++ report.closing, .ok report⟩

end Selection

def Command.run (working : Location) : Command → Run
  | .check selection json => selection.run working (Report.ofCheck json)
  | .scores selection options => selection.run working fun _ => Report.ofScores options
  | .completions shell => ⟨[], .ok ⟨0, shell.script, []⟩⟩

structure Outcome where
  status : Nat
  output : String
  errors : String
  deriving DecidableEq, Repr

namespace Outcome

def ofRun (wording : Settings.Wording) (verbosity : Nat) (run : Run) : Outcome :=
  let log := Log.render (.ofVerbosity verbosity) run.log
  match run.result with
  | .ok report => ⟨report.status, report.text, log⟩
  | .error failure => ⟨2, "", log ++ "error: " ++ failure.message wording ++ "\n"⟩

def ofRequest (wording : Settings.Wording) (working : Location) : Request → Outcome
  | .run verbosity command => ofRun wording verbosity (command.run working)
  | .help page detailed => ⟨0, page.text detailed, ""⟩
  | .version => ⟨0, programName ++ " " ++ programVersion ++ "\n", ""⟩

def ofWords (wording : Settings.Wording) (working : Location) (words : List Bytes) : Outcome :=
  match Request.ofWords words with
  | .ok request => ofRequest wording working request
  | .error error => ⟨2, "", "error: " ++ error.message ++ "\n"⟩

end Outcome

end CognitiveComplexity
