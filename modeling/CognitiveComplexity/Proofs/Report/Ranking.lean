import CognitiveComplexity.Proofs.Path.Walk
import CognitiveComplexity.Proofs.Report.Scores

set_option autoImplicit false

namespace CognitiveComplexity

namespace FileScore

theorem total_eq_sum (file : FileScore) : file.total = file.complexities.sum :=
  List.sum_eq_foldr.symm

theorem maximum_eq (file : FileScore) (filled : file.functions ≠ []) :
    file.complexities.max? = some file.maximum := by
  have scores : file.complexities ≠ [] := by simpa [complexities] using filled
  obtain ⟨score, rest, split⟩ := List.exists_cons_of_ne_nil scores
  rw [maximum, split, List.max?_cons', List.foldl_cons, Nat.zero_max]

end FileScore

theorem FunctionScore.complexities_ofSource (threshold : Nat) (source : String) :
    (ofSource threshold source).map (·.complexity) =
      (Scope.all (Token.stream source)).map (·.body.score (Token.stream source)) := by
  simp [ofSource, ofScope, Function.comp_def]

theorem Target.sourceFiles_increase (working : Location) (target : Target) (paths : List Path)
    (wellFormed : working.WellFormed) (found : target.sourceFiles working = .ok paths) :
    paths.Pairwise fun one other => one.less other = true := by
  simp only [sourceFiles] at found
  split at found
  next => cases found
  next location leads =>
    have there := Location.find_wellFormed working target.path location wellFormed leads
    split at found
    next =>
      cases found
      exact List.pairwise_singleton _ _
    next =>
      cases found
      exact listed_increase working target location there

namespace Scores

def keyOf (name : String) (file : FileScore) : Nat :=
  if name = "max" then file.maximum else file.total

/-- A file ranks above another with a greater key, or with the same key and a smaller path. -/
def Ranks (key : FileScore → Nat) (one other : FileScore) : Prop :=
  key other ≤ key one ∧ (key one = key other → one.path.less other.path = true)

theorem before_eq (name : String) (noAverage : name ≠ "avg") (one other : FileScore) :
    ((SortKey.ofName? name).getD .total).before one other =
      decide (keyOf name other ≤ keyOf name one) := by
  by_cases isMax : name = "max"
  next =>
    subst isMax
    rfl
  next =>
    have key : (SortKey.ofName? name).getD .total = .total := by
      by_cases isTotal : name = "total"
      next =>
        subst isTotal
        rfl
      next =>
        have unlisted : SortKey.ofName? name = none := by
          simp [SortKey.ofName?, List.lookup_eq_none_iff, SortKey.names, isMax, isTotal, noAverage]
        rw [unlisted, Option.getD_none]
    rw [key]
    simp [SortKey.before, keyOf, isMax]

-- A stable sort of files in the order of their paths puts them in the order of their rank.
theorem mergeSort_ranks (key : FileScore → Nat) (files : List FileScore)
    (ordered : files.Pairwise fun one other => one.path.less other.path = true) :
    (files.mergeSort fun one other => decide (key other ≤ key one)).Pairwise (Ranks key) := by
  have trans (a b c : FileScore) (lower : decide (key b ≤ key a) = true)
      (upper : decide (key c ≤ key b) = true) : decide (key c ≤ key a) = true := by
    simp only [decide_eq_true_eq] at lower upper ⊢
    exact upper.trans lower
  have total (a b : FileScore) : (decide (key b ≤ key a) || decide (key a ≤ key b)) = true := by
    simp only [Bool.or_eq_true, decide_eq_true_eq]
    exact Nat.le_total _ _
  induction files with
  | nil => simp
  | cons file files ih =>
    obtain ⟨first, later⟩ := List.pairwise_cons.mp ordered
    -- The file goes in behind the greater keys and in front of the equal ones.
    obtain ⟨above, below, whole, rest, greater⟩ := List.mergeSort_cons trans total file files
    have sorted := List.pairwise_mergeSort trans total (file :: files)
    have ranked := ih later
    have member (other : FileScore) (inside : other ∈ below) : other ∈ files := by
      apply (List.mergeSort_perm files _).subset
      rw [rest]
      exact List.mem_append_right _ inside
    rw [rest, List.pairwise_append] at ranked
    rw [whole, List.pairwise_append, List.pairwise_cons] at sorted ⊢
    refine ⟨ranked.1, ⟨fun other inside => ?_, ranked.2.1⟩, fun one inside other behind => ?_⟩
    next =>
      have lower : key other ≤ key file := by simpa using sorted.2.1.1 other inside
      exact ⟨lower, fun _ => first other (member other inside)⟩
    next =>
      rcases List.mem_cons.mp behind with rfl | inBelow
      next =>
        have apart : key other < key one := by simpa using greater one inside
        exact ⟨apart.le, fun same => absurd same apart.ne'⟩
      next => exact ranked.2.2 one inside other inBelow

def Eligible (working : Location) (paths : List Path) (threshold minimum : Nat) (file : FileScore) :
    Prop :=
  file.path ∈ paths ∧
    (∃ source, working.sourceText? file.path = some source ∧
      file.functions = FunctionScore.ofSource threshold source) ∧
    file.functions ≠ [] ∧ minimum ≤ file.maximum

theorem analyseFile_eq_some (working : Location) (threshold : Nat) (path : Path) (file : FileScore) :
    (analyseFile working threshold path).2 = some file ↔ file.path = path ∧ file.functions ≠ [] ∧
      ∃ source, working.sourceText? path = some source ∧
        file.functions = FunctionScore.ofSource threshold source := by
  rw [working.analyseFile_scored threshold path, Location.scored?]
  cases working.sourceText? path with
  | none => simp
  | some source =>
    obtain ⟨own, functions⟩ := file
    by_cases idle : FunctionScore.ofSource threshold source = []
    next => simp [idle]
    next => grind

theorem mem_scored_iff (working : Location) (threshold : Nat) (paths : List Path) (file : FileScore) :
    file ∈ Check.scored working threshold paths ↔ file.path ∈ paths ∧ file.functions ≠ [] ∧
      ∃ source, working.sourceText? file.path = some source ∧
        file.functions = FunctionScore.ofSource threshold source := by
  simp only [Check.scored, List.mem_filterMap, List.mem_map, exists_exists_and_eq_and,
    analyseFile_eq_some]
  constructor
  next =>
    rintro ⟨path, listed, rfl, analysed⟩
    exact ⟨listed, analysed⟩
  next =>
    rintro ⟨listed, analysed⟩
    exact ⟨file.path, listed, rfl, analysed⟩

theorem ofTarget_of_find (working : Location) (target : Target) (threshold : Nat)
    (location : Location) (leads : working.find target.path = .ok location) :
    ∃ analysis, Analysis.ofTarget working target threshold = .ok analysis := by
  simp only [Analysis.ofTarget, Target.sourceFiles, leads]
  split <;> exact ⟨_, rfl⟩

theorem scored_increase (working : Location) (threshold : Nat) (paths : List Path)
    (ordered : paths.Pairwise fun one other => one.less other = true) :
    (Check.scored working threshold paths).Pairwise fun one other =>
      one.path.less other.path = true :=
  List.pairwise_map.mp (ordered.sublist (paths_scored working threshold paths))

/-- The files shown are the first of those that may be shown, in the order of their rank. -/
structure ShowsTop (key : FileScore → Nat) (top : Nat) (eligible shown : List FileScore) : Prop where
  within : ∀ file ∈ shown, file ∈ eligible
  distinct : (shown.map (·.path)).Nodup
  length : shown.length = min top eligible.length
  ranked : shown.Pairwise (Ranks key)
  cut : ∀ file ∈ eligible, file ∉ shown → ∀ other ∈ shown, Ranks key other file

theorem showsTop_select (options : Options) (files : List FileScore)
    (noAverage : options.sortBy ≠ "avg")
    (ordered : files.Pairwise fun one other => one.path.less other.path = true)
    (distinct : (files.map (·.path)).Nodup) :
    ShowsTop (keyOf options.sortBy) options.top
      (files.filter fun file => options.minimum ≤ file.maximum) (select options files) := by
  have before : options.sortKey.before = fun one other =>
      decide (keyOf options.sortBy other ≤ keyOf options.sortBy one) := by
    funext one other
    exact before_eq options.sortBy noAverage one other
  have unique : ((files.filter fun file => options.minimum ≤ file.maximum).map (·.path)).Nodup :=
    (List.filter_sublist.map _).nodup distinct
  have ranked := mergeSort_ranks (keyOf options.sortBy) _
    (ordered.filter fun file => decide (options.minimum ≤ file.maximum))
  simp only [select, before]
  generalize files.filter (fun file => decide (options.minimum ≤ file.maximum)) = eligible
    at unique ranked ⊢
  have perm := List.mergeSort_perm eligible fun one other =>
    decide (keyOf options.sortBy other ≤ keyOf options.sortBy one)
  generalize eligible.mergeSort
    (fun one other => decide (keyOf options.sortBy other ≤ keyOf options.sortBy one)) = all
    at ranked perm ⊢
  constructor
  case within => exact fun file shown => perm.subset (List.mem_of_mem_take shown)
  case distinct =>
    have each := (perm.map (·.path)).nodup_iff.mpr unique
    exact ((List.take_sublist options.top all).map (·.path)).nodup each
  case length => rw [List.length_take, perm.length_eq]
  case ranked => exact ranked.sublist (List.take_sublist _ _)
  case cut =>
    intro file listed left_out other shown
    have member := perm.symm.subset listed
    rw [← List.take_append_drop options.top all] at ranked member
    have behind := (List.mem_append.mp member).resolve_left left_out
    exact (List.pairwise_append.mp ranked).2.2 other shown file behind

theorem shows_greatest_files (working : Location) (target : Target) (threshold : Nat)
    (options : Options) (location : Location) (wellFormed : working.WellFormed)
    (leads : working.find target.path = .ok location) (noAverage : options.sortBy ≠ "avg") :
    ∃ (analysis : Analysis) (paths : List Path) (eligible shown : List FileScore),
      Analysis.ofTarget working target threshold = .ok analysis ∧
      target.sourceFiles working = .ok paths ∧
      (∀ path ∈ paths, ∀ text, path.bytes = Bytes.ofString text → path.display = text) ∧
      (∀ file, file ∈ eligible ↔ Eligible working paths threshold options.minimum file) ∧
      (eligible.map (·.path)).Nodup ∧
      (∀ file ∈ eligible, ∃ source, working.sourceText? file.path = some source ∧
        let scores := (Scope.all (Token.stream source)).map (·.body.score (Token.stream source))
        file.functionCount = scores.length ∧ file.total = scores.sum ∧
          scores.max? = some file.maximum) ∧
      ShowsTop (keyOf options.sortBy) options.top eligible shown ∧
      Shows options (shown.map FileEntry.ofFile) (Report.ofScores options analysis.files).text := by
  obtain ⟨analysis, succeeds⟩ := ofTarget_of_find working target threshold location leads
  obtain ⟨paths, sources, files⟩ := Check.ofTarget_eq working target threshold analysis succeeds
  have increase := Target.sourceFiles_increase working target paths wellFormed sources
  have ordered := scored_increase working threshold paths increase
  have distinct := (paths_scored working threshold paths).nodup
    (Target.sourceFiles_nodup working target paths wellFormed sources)
  have unspaced := Check.unspaced_functions working threshold paths
  rw [← files] at ordered distinct unspaced
  have top := showsTop_select options analysis.files noAverage ordered distinct
  have eligible (file : FileScore) :
      file ∈ analysis.files.filter (fun file => decide (options.minimum ≤ file.maximum)) ↔
        Eligible working paths threshold options.minimum file := by
    rw [List.mem_filter, files, mem_scored_iff, Eligible, decide_eq_true_eq]
    tauto
  refine ⟨analysis, paths, _, select options analysis.files, succeeds, sources,
    fun path _ => path.display_text, eligible, (List.filter_sublist.map _).nodup distinct, ?_, top, ?_⟩
  next =>
    intro file member
    obtain ⟨_, ⟨source, text, functions⟩, filled, _⟩ := (eligible file).mp member
    have scores := FunctionScore.complexities_ofSource threshold source
    rw [← functions] at scores
    refine ⟨source, text, ?_⟩
    rw [← scores]
    exact ⟨(List.length_map _).symm, file.total_eq_sum, file.maximum_eq filled⟩
  next =>
    refine shows_render options (select options analysis.files) fun file shown => ?_
    exact unspaced file (List.mem_of_mem_filter (top.within file shown))

def tiedEntries : List (Bytes × FileTree) :=
  [(Bytes.ofString "a.php", .file (.ok (Bytes.ofString "<?php function g() \x7b \x7d"))),
    (Bytes.ofString "b.php",
      .file (.ok (Bytes.ofString "<?php function f($x) \x7b if ($x) \x7b \x7d \x7d"))),
    (Bytes.ofString "c.php",
      .file (.ok (Bytes.ofString "<?php function f($x) \x7b if ($x) \x7b \x7d \x7d")))]

-- One file with a smaller score in front of two with the same scores.
def tied : Location := .top (.directory .nothing tiedEntries)

def tiedTarget : Target := ⟨.ofString "/", false, .default⟩

def tiedPaths : List Path := [.ofString "/a.php", .ofString "/b.php", .ofString "/c.php"]

theorem tied_wellFormed : tied.WellFormed := by
  refine ⟨?_, by simp [tied, Location.top]⟩
  refine .directory _ _ (by decide +kernel) (by decide +kernel) ?_
  simp only [tiedEntries, List.forall_mem_cons, List.not_mem_nil, false_implies, implies_true, and_true]
  exact ⟨.file _, .file _, .file _⟩

theorem tied_sourceFiles : tiedTarget.sourceFiles tied = .ok tiedPaths := by
  have walked : tiedTarget.found tied tied =
      [.file [Bytes.ofString "a.php"], .file [Bytes.ofString "b.php"],
        .file [Bytes.ofString "c.php"]] := by
    simp only [Target.found, tied, tiedEntries, Location.top, Location.tree, FileTree.entries,
      FileTree.refusal, List.head?_nil, Option.map_none, Option.getD_none, Target.walk]
    decide +kernel
  apply Target.sourceFiles_of_found tied tiedTarget tied _ _ rfl rfl walked
  next => decide +kernel
  next => decide +kernel

theorem tied_total (threshold minimum : Nat) (paths : List Path) (file : FileScore) (source : String)
    (may : Eligible tied paths threshold minimum file)
    (text : tied.sourceText? file.path = some source) :
    file.total = ((FunctionScore.ofSource threshold source).map (·.complexity)).sum := by
  obtain ⟨_, ⟨other, found, functions⟩, _⟩ := may
  obtain rfl : other = source := Option.some.inj (found.symm.trans text)
  rw [file.total_eq_sum, FileScore.complexities, functions]

-- Only one file is shown, so the paths decide which of the two it is.
theorem shows_greatest_files_tied :
    ∃ (analysis : Analysis) (file : FileScore),
      tied.WellFormed ∧ tied.find tiedTarget.path = .ok tied ∧
      Analysis.ofTarget tied tiedTarget 0 = .ok analysis ∧
      Shows ⟨false, 0, 1, false, "size"⟩ [.ofFile file]
        (Report.ofScores ⟨false, 0, 1, false, "size"⟩ analysis.files).text ∧
      file.path = .ofString "/b.php" := by
  have leads : tied.find tiedTarget.path = .ok tied := rfl
  obtain ⟨analysis, paths, eligible, shown, succeeds, sources, _, may, _, _, top, text⟩ :=
    shows_greatest_files tied tiedTarget 0 ⟨false, 0, 1, false, "size"⟩ _ tied_wellFormed leads
      (by decide)
  rw [tied_sourceFiles, Except.ok.injEq] at sources
  subst sources
  let small := "<?php function g() \x7b \x7d"
  let great := "<?php function f($x) \x7b if ($x) \x7b \x7d \x7d"
  have texts : tied.sourceText? (.ofString "/a.php") = some small ∧
      tied.sourceText? (.ofString "/b.php") = some great ∧
      tied.sourceText? (.ofString "/c.php") = some great := by
    decide +kernel
  have totals : ((FunctionScore.ofSource 0 small).map (·.complexity)).sum = 0 ∧
      ((FunctionScore.ofSource 0 great).map (·.complexity)).sum = 1 := by
    decide +kernel
  let best : FileScore := ⟨.ofString "/b.php", FunctionScore.ofSource 0 great⟩
  have bestMay : Eligible tied tiedPaths 0 0 best :=
    ⟨by decide +kernel, ⟨great, texts.2.1, rfl⟩, by decide +kernel, Nat.zero_le _⟩
  have bestTotal : best.total = 1 := (tied_total 0 0 _ best great bestMay texts.2.1).trans totals.2
  have member := (may best).mpr bestMay
  have single : shown.length = 1 := by
    have filled := List.length_pos_of_mem member
    rw [top.length]
    exact Nat.min_eq_left filled
  obtain ⟨file, rfl⟩ := List.length_eq_one_iff.mp single
  refine ⟨analysis, file, tied_wellFormed, leads, succeeds, text, ?_⟩
  by_contra other
  have fileMay := (may file).mp (top.within file List.mem_cons_self)
  have leftOut : best ∉ [file] := fun same => other (List.mem_singleton.mp same ▸ rfl)
  obtain ⟨least, ties⟩ := top.cut best member leftOut file List.mem_cons_self
  have keys (score : FileScore) : keyOf "size" score = score.total := rfl
  rw [keys, keys, bestTotal] at least ties
  have listed := fileMay.1
  simp only [tiedPaths, List.mem_cons, List.not_mem_nil, or_false, other, false_or] at listed
  rcases listed with first | third
  next =>
    rw [tied_total 0 0 _ file small fileMay (first ▸ texts.1), totals.1] at least
    exact absurd least (by decide)
  next =>
    have tie := ties ((tied_total 0 0 _ file great fileMay (third ▸ texts.2.2)).trans totals.2)
    rw [third] at tie
    revert tie
    decide +kernel

end Scores

end CognitiveComplexity
