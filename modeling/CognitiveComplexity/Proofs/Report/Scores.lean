import CognitiveComplexity.Proofs.Report.Agreement
import CognitiveComplexity.Proofs.Report.Table

set_option autoImplicit false

namespace CognitiveComplexity.Scores

open Check (Entry)

-- How the check lists a function.
def FunctionEntry.listed (threshold : Nat) (path : String) (function : FunctionEntry) : Entry :=
  ⟨path, function.line, function.column, function.name, function.complexity, threshold⟩

namespace FileEntry

def exceeding (file : FileEntry) : List FunctionEntry := file.functions.filter (·.exceeds)

def entries (threshold : Nat) (file : FileEntry) : List Entry :=
  file.exceeding.map (FunctionEntry.listed threshold file.path)

theorem path_of_entry (threshold : Nat) (file : FileEntry) (entry : Entry)
    (member : entry ∈ file.entries threshold) : entry.path = file.path := by
  obtain ⟨function, _, rfl⟩ := List.mem_map.mp member
  rfl

-- Where no other file has its path, the entries of a file are all that is listed for the path.
theorem entries_at_path (threshold : Nat) (files : List FileEntry) (file : FileEntry)
    (member : file ∈ files) (once : (files.map (·.path)).count file.path = 1) :
    (files.flatMap (entries threshold)).filter (·.path == file.path) = file.entries threshold := by
  induction files with
  | nil => cases member
  | cons first rest ih =>
    rw [List.map_cons, List.count_cons] at once
    rw [List.flatMap_cons, List.filter_append]
    by_cases same : first.path = file.path
    next =>
      have fresh : file.path ∉ rest.map (·.path) := by
        rw [same, beq_self_eq_true, if_pos rfl] at once
        exact List.count_eq_zero.mp (by omega)
      have here : first = file := by
        rcases List.mem_cons.mp member with rfl | later
        next => rfl
        next => exact absurd (List.mem_map_of_mem later) fresh
      have elsewhere : (rest.flatMap (entries threshold)).filter (·.path == file.path) = [] := by
        refine List.filter_eq_nil_iff.mpr fun entry found equal => ?_
        obtain ⟨other, listed, inside⟩ := List.mem_flatMap.mp found
        rw [beq_iff_eq, path_of_entry threshold other entry inside] at equal
        exact fresh (equal ▸ List.mem_map_of_mem listed)
      have whole : (first.entries threshold).filter (·.path == file.path) = first.entries threshold :=
        List.filter_eq_self.mpr fun entry found => by
          rw [beq_iff_eq, path_of_entry threshold first entry found, same]
      rw [whole, elsewhere, List.append_nil, here]
    next =>
      have later : file ∈ rest :=
        (List.mem_cons.mp member).resolve_left fun equal => same (congrArg FileEntry.path equal.symm)
      have elsewhere : (first.entries threshold).filter (·.path == file.path) = [] := by
        refine List.filter_eq_nil_iff.mpr fun entry found equal => ?_
        rw [beq_iff_eq, path_of_entry threshold first entry found] at equal
        exact same equal
      rw [if_neg (by simpa using same)] at once
      rw [elsewhere, List.nil_append, ih later once]

end FileEntry

theorem select_perm (options : Options) (files : List FileScore) (all : options.minimum = 0)
    (top : files.length ≤ options.top) : (select options files).Perm files := by
  have kept : (files.filter fun file => options.minimum ≤ file.maximum) = files := by
    simp [all]
  unfold select
  rw [kept, List.take_of_length_le (by simpa using top)]
  exact List.mergeSort_perm _ _

theorem violation_ofSource (threshold : Nat) (source : String) (function : FunctionScore)
    (member : function ∈ FunctionScore.ofSource threshold source) (violation : Violation)
    (flagged : function.violation = some violation) :
    violation.score = function.complexity ∧ violation.threshold = threshold := by
  obtain ⟨scope, _, rfl⟩ := List.mem_map.mp member
  simp only [FunctionScore.ofScope, Violation.ofScore?, Option.ite_none_right_eq_some] at flagged
  obtain ⟨_, same⟩ := flagged
  cases same
  exact ⟨rfl, rfl⟩

theorem violationCount_ofFile (file : FileScore) :
    (FileEntry.ofFile file).violationCount = (FileEntry.ofFile file).exceeding.length := by
  simp [FileEntry.exceeding, FileEntry.ofFile, FileScore.violationCount, List.filter_map,
    Function.comp_def, FunctionEntry.ofFunction]

theorem entries_ofFile (threshold : Nat) (source : String) (file : FileScore)
    (analysed : file.functions = FunctionScore.ofSource threshold source) :
    (FileEntry.ofFile file).entries threshold = (Check.findingsIn file).map Entry.ofFinding := by
  have flagged := violation_ofSource threshold source
  rw [← analysed] at flagged
  unfold FileEntry.entries FileEntry.exceeding FileEntry.ofFile Check.findingsIn FileScore.violations
  simp only
  generalize file.functions = functions at flagged
  induction functions with
  | nil => rfl
  | cons function rest ih =>
    have later := ih fun other member => flagged other (List.mem_cons_of_mem _ member)
    cases here : function.violation with
    | none =>
      simpa [FunctionEntry.ofFunction, here] using later
    | some violation =>
      obtain ⟨score, limit⟩ := flagged function List.mem_cons_self violation here
      simpa [FunctionEntry.ofFunction, FunctionEntry.listed, Entry.ofFinding, here, score, limit]
        using later

section Analysed

variable (working : Location) (threshold : Nat) (paths : List Path)

theorem entries_scored :
    ((Check.scored working threshold paths).map FileEntry.ofFile).flatMap
        (FileEntry.entries threshold) =
      (Check.findings (Check.scored working threshold paths)).map Entry.ofFinding := by
  rw [Check.findings, List.map_flatMap, List.flatMap_map]
  refine List.flatMap_congr fun file member => ?_
  obtain ⟨source, functions⟩ := Check.mem_scored working threshold paths file member
  exact entries_ofFile threshold source file functions

theorem paths_scored : ((Check.scored working threshold paths).map (·.path)).Sublist paths := by
  induction paths with
  | nil => exact .slnil
  | cons path rest ih =>
    rcases Check.analyseFile_cases working threshold path with ⟨drops, _⟩ | ⟨source, _, keeps⟩
    · simpa [Check.scored, drops] using ih.cons path
    · simpa [Check.scored, keeps] using ih

end Analysed

theorem displays_nodup (files : List FileScore) (distinct : (files.map (·.path)).Nodup)
    (texts : ∀ file ∈ files, ∃ text, file.path.bytes = Bytes.ofString text) :
    ((files.map FileEntry.ofFile).map (·.path)).Nodup := by
  have shown : (files.map FileEntry.ofFile).map (·.path) = (files.map (·.path)).map Path.display := by
    simp [FileEntry.ofFile, Function.comp_def]
  rw [shown]
  refine distinct.map_on fun one member other member' same => ?_
  obtain ⟨file, inside, rfl⟩ := List.mem_map.mp member
  obtain ⟨file', inside', rfl⟩ := List.mem_map.mp member'
  obtain ⟨text, bytes⟩ := texts file inside
  obtain ⟨text', bytes'⟩ := texts file' inside'
  rw [file.path.display_text text bytes, file'.path.display_text text' bytes'] at same
  exact congrArg Path.mk (bytes.trans (same ▸ bytes'.symm))

theorem sample_wellFormed : Check.sample.WellFormed := by
  refine ⟨?_, by simp [Check.sample, Location.top]⟩
  refine .directory _ _ (by decide +kernel) (by decide +kernel) (List.forall_mem_singleton.mpr ?_)
  refine .directory _ _ (by decide +kernel) (by decide +kernel) ?_
  simp only [Check.sampleEntries, List.forall_mem_cons, List.not_mem_nil, false_implies, implies_true,
    and_true]
  refine ⟨.file _, .file _, ?_, .file _⟩
  exact .directory _ _ (by decide +kernel) (by decide +kernel) (List.forall_mem_singleton.mpr (.file _))

end CognitiveComplexity.Scores
