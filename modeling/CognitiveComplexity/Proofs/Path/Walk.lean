import CognitiveComplexity.Proofs.Path.Listing
import CognitiveComplexity.Proofs.Text.Boundary

set_option autoImplicit false

namespace CognitiveComplexity

namespace Target

/-- Names that lead from the entries of a directory to a file, past no directory that is hidden, closed
or refused. The levels are those of the directory and of all around it. -/
inductive Reaches (working : Location) (includeTests : Bool) :
    List Ignore.Level → Location → List (Bytes × FileTree) → List Bytes → Prop
  | file {levels : List Ignore.Level} {location : Location} {entries : List (Bytes × FileTree)}
      {name : Bytes} {content : Except AccessFault Bytes} (entry : (name, .file content) ∈ entries)
      (shown : Ignore.hides levels name false = false) :
      Reaches working includeTests levels location entries [name]
  | inside {levels : List Ignore.Level} {location : Location} {entries inner : List (Bytes × FileTree)}
      {refusal : Refusal} {name : Bytes} {names : List Bytes}
      (entry : (name, .directory refusal inner) ∈ entries)
      (shown : Ignore.hides levels name true = false) (opened : isClosed includeTests name = false)
      (admitted : location.tree.refusal.search.or refusal.listing = none)
      (below : Reaches working includeTests
        (Ignore.Level.ofDirectory working (location.child name (.directory refusal inner)) :: levels)
        (location.child name (.directory refusal inner)) inner names) :
      Reaches working includeTests levels location entries (name :: names)

section Reaches

variable {working : Location} {includeTests : Bool} {levels : List Ignore.Level} {location : Location}

theorem Reaches.mono {entries more : List (Bytes × FileTree)} {names : List Bytes}
    (reaches : Reaches working includeTests levels location entries names) (among : entries ⊆ more) :
    Reaches working includeTests levels location more names := by
  cases reaches with
  | file here shown => exact .file (among here) shown
  | inside here shown opened admitted below =>
    exact .inside (among here) shown opened admitted below

theorem reaches_cons (entry : Bytes × FileTree) (rest : List (Bytes × FileTree))
    (names : List Bytes) :
    Reaches working includeTests levels location (entry :: rest) names ↔
      Reaches working includeTests levels location [entry] names ∨
        Reaches working includeTests levels location rest names := by
  constructor
  next =>
    intro reaches
    cases reaches with
    | file here shown =>
      apply (List.mem_cons.mp here).imp
      next => exact fun same => .file (List.mem_singleton.mpr same) shown
      next => exact fun behind => .file behind shown
    | inside here shown opened admitted below =>
      apply (List.mem_cons.mp here).imp
      next => exact fun same => .inside (List.mem_singleton.mpr same) shown opened admitted below
      next => exact fun behind => .inside behind shown opened admitted below
  next =>
    intro either
    rcases either with here | behind
    next => exact here.mono (by simp)
    next => exact behind.mono (by simp)

theorem reaches_file (name : Bytes) (content : Except AccessFault Bytes) (names : List Bytes) :
    Reaches working includeTests levels location [(name, .file content)] names ↔
      Ignore.hides levels name false = false ∧ names = [name] := by
  constructor
  next =>
    intro reaches
    cases reaches with
    | file here shown =>
      cases List.mem_singleton.mp here
      exact ⟨shown, rfl⟩
    | inside here => cases List.mem_singleton.mp here
  next =>
    intro reached
    obtain ⟨shown, rfl⟩ := reached
    exact .file List.mem_cons_self shown

theorem reaches_directory (name : Bytes) (refusal : Refusal) (inner : List (Bytes × FileTree))
    (names : List Bytes) :
    Reaches working includeTests levels location [(name, .directory refusal inner)] names ↔
      Ignore.hides levels name true = false ∧ isClosed includeTests name = false ∧
        location.tree.refusal.search.or refusal.listing = none ∧
        ∃ more, names = name :: more ∧ Reaches working includeTests
          (Ignore.Level.ofDirectory working (location.child name (.directory refusal inner)) :: levels)
          (location.child name (.directory refusal inner)) inner more := by
  constructor
  next =>
    intro reaches
    cases reaches with
    | file here => cases List.mem_singleton.mp here
    | inside here shown opened admitted below =>
      cases List.mem_singleton.mp here
      exact ⟨shown, opened, admitted, _, rfl, below⟩
  next =>
    intro reached
    obtain ⟨shown, opened, admitted, more, rfl, below⟩ := reached
    exact .inside List.mem_cons_self shown opened admitted below

theorem reaches_other (name : Bytes) (tree : FileTree) (noFile : tree.isFile = false)
    (noDirectory : tree.isDirectory = false) (names : List Bytes) :
    ¬ Reaches working includeTests levels location [(name, tree)] names := by
  intro reaches
  cases reaches with
  | file here =>
    cases List.mem_singleton.mp here
    cases noFile
  | inside here =>
    cases List.mem_singleton.mp here
    cases noDirectory

end Reaches

/-- A walk comes to the files that names lead to, and to no others. -/
theorem mem_walk_iff (working : Location) (includeTests : Bool) (levels : List Ignore.Level)
    (location : Location) (above : List Bytes) (entries : List (Bytes × FileTree))
    (found : List Bytes) :
    .file found ∈ walk working includeTests levels location above entries ↔
      ∃ names, found = above ++ names ∧
        Reaches working includeTests levels location entries names := by
  fun_induction walk working includeTests levels location above entries with
  | case1 levels location above =>
    simp only [List.not_mem_nil, false_iff, not_exists, not_and]
    intro names _ reaches
    cases reaches <;> contradiction
  | case2 levels location above name content rest others hidden ih =>
    simp only [reaches_cons _ rest, reaches_file, hidden, Bool.true_eq_false, false_and, false_or]
    exact ih
  | case3 levels location above name content rest others shown ih =>
    rw [List.mem_cons, ih]
    simp [reaches_cons _ rest, reaches_file, shown, and_or_left, exists_or]
  | case4 levels location above name refusal inner rest others closed ih =>
    rw [ih]
    simp only [Bool.or_eq_true] at closed
    simp only [reaches_cons _ rest, reaches_directory]
    rcases closed with hidden | shut
    next => simp [hidden]
    next => simp [shut]
  | case5 levels location above name refusal inner rest others opened fault refused ih =>
    rw [List.mem_cons, ih]
    simp [reaches_cons _ rest, reaches_directory, refused]
  | case6 levels location above name refusal inner rest others opened admitted place level ih ihInner =>
    simp only [Bool.or_eq_true, not_or, Bool.not_eq_true] at opened
    rw [List.mem_append, ihInner, ih]
    simp [reaches_cons _ rest, reaches_directory, opened, admitted, and_or_left, exists_or, place, level]
  | case7 levels location above name destination rest ih =>
    rw [ih]
    simp [reaches_cons _ rest, reaches_other name (.link destination) rfl rfl]
  | case8 levels location above name content rest ih =>
    rw [ih]
    simp [reaches_cons _ rest, reaches_other name (.special content) rfl rfl]

theorem isClosed_without_tests (name : Bytes) :
    isClosed false name = false ↔
      isClosed true name = false ∧ ∀ text ∈ testDirectories, name ≠ Bytes.ofString text := by
  have tests : (Bytes.decode? name).any testDirectories.contains = true ↔
      ∃ text ∈ testDirectories, name = Bytes.ofString text := by
    simp only [Option.any_eq_true, Bytes.decode_eq_some, List.contains_iff_mem]
    exact exists_congr fun _ => and_comm
  have closed : isClosed false name =
      (isClosed true name || (Bytes.decode? name).any testDirectories.contains) := by
    simp [isClosed]
  rw [closed, Bool.or_eq_false_iff, ← Bool.not_eq_true ((Bytes.decode? name).any _), tests]
  simp

section Named

variable {working : Location} {includeTests : Bool} {levels : List Ignore.Level} {location : Location}
  {entries : List (Bytes × FileTree)} {names : List Bytes}

theorem Reaches.ne_nil (reaches : Reaches working includeTests levels location entries names) :
    names ≠ [] := by
  cases reaches <;> exact List.cons_ne_nil _ _

theorem Reaches.dropLast_cons (reaches : Reaches working includeTests levels location entries names)
    (name : Bytes) : (name :: names).dropLast = name :: names.dropLast :=
  List.dropLast_cons_of_ne_nil reaches.ne_nil

theorem Reaches.named {refusal : Refusal}
    (reaches : Reaches working includeTests levels location entries names)
    (wellFormed : FileTree.WellFormed (.directory refusal entries)) : ∀ name ∈ names, IsName name := by
  induction reaches generalizing refusal with
  | file entry _ =>
    cases wellFormed with
    | directory _ _ _ named _ => simpa using named _ entry
  | inside entry _ _ _ _ ih =>
    cases wellFormed with
    | directory _ _ _ named below =>
      exact List.forall_mem_cons.mpr ⟨named _ entry, ih (below _ entry)⟩

theorem Reaches.not_git (reaches : Reaches working includeTests levels location entries names) :
    Bytes.ofString ".git" ∉ names.dropLast := by
  induction reaches with
  | file => simp
  | inside _ _ opened _ below ih =>
    rw [below.dropLast_cons, List.mem_cons, not_or]
    refine ⟨?_, ih⟩
    rintro rfl
    simp [isClosed] at opened

-- The directories of tests are all that a walk without tests leaves out.
theorem reaches_without_tests :
    Reaches working false levels location entries names ↔
      Reaches working true levels location entries names ∧
        ∀ name ∈ names.dropLast, ∀ text ∈ testDirectories, name ≠ Bytes.ofString text := by
  constructor
  next =>
    intro reaches
    induction reaches with
    | file entry shown => exact ⟨.file entry shown, by simp⟩
    | inside entry shown opened admitted below ih =>
      obtain ⟨notGit, notTest⟩ := (isClosed_without_tests _).mp opened
      rw [below.dropLast_cons]
      exact ⟨.inside entry shown notGit admitted ih.1, List.forall_mem_cons.mpr ⟨notTest, ih.2⟩⟩
  next =>
    intro both
    obtain ⟨reaches, outside⟩ := both
    induction reaches with
    | file entry shown => exact .file entry shown
    | inside entry shown opened admitted below ih =>
      rw [below.dropLast_cons, List.forall_mem_cons] at outside
      exact .inside entry shown ((isClosed_without_tests _).mpr ⟨opened, outside.1⟩) admitted
        (ih outside.2)

end Named

/-- Names that lead from a target to a file that its walk comes to. -/
def Leads (working : Location) (path : Path) (location : Location) (includeTests : Bool)
    (names : List Bytes) : Prop :=
  isStandardInput path = false ∧ location.tree.refusal.listing = none ∧
    Reaches working includeTests (Ignore.Level.along working location) location
      location.tree.entries names

section Listed

variable (working : Location) (target : Target) (location : Location)

theorem mem_found (names : List Bytes) :
    names ∈ (target.found working location).filterMap Found.file? ↔
      Leads working target.path location target.includeTests names := by
  have files (found : List Found) : names ∈ found.filterMap Found.file? ↔ .file names ∈ found := by
    rw [List.mem_filterMap]
    constructor
    next =>
      rintro ⟨one, member, named⟩
      cases one with
      | file _ =>
        cases named
        exact member
      | refused _ _ => cases named
    next => exact fun member => ⟨_, member, rfl⟩
  rw [files, found, Leads]
  split
  next dash => simp [dash]
  next named =>
    split
    next fault refused => simp [refused]
    next admitted => simp [mem_walk_iff, named, admitted]

theorem mem_listed (path : Path) :
    path ∈ target.listed working location ↔
      (∃ names, Leads working target.path location target.includeTests names ∧
        pathTo target.path names = path) ∧
      target.filter.accepts target.path path = true ∧
      (target.includeTests = true ∨ isTestFile path = false) := by
  simp only [listed, List.mem_mergeSort, List.mem_filter, List.mem_map, mem_found]
  simp

theorem listed_ordered : (target.listed working location).Pairwise
    fun one other => one.lessOrEqual other = true := Path.pairwise_sort _

theorem listed_increase (wellFormed : location.WellFormed) :
    (target.listed working location).Pairwise fun one other => one.less other = true := by
  have ordered := listed_ordered working target location
  have distinct := listed_nodup working target location wellFormed
  have entries := wellFormed.tree.entries
  refine (ordered.and distinct).imp_of_mem ?_
  intro one other listed listed' apart
  obtain ⟨before, differ⟩ := apart
  rcases (Path.lessOrEqual_iff one other).mp before with less | same
  next => exact less
  next =>
    obtain ⟨⟨names, leads, rfl⟩, _⟩ := (mem_listed working target location one).mp listed
    obtain ⟨⟨names', leads', rfl⟩, _⟩ := (mem_listed working target location other).mp listed'
    have equal := Path.components_injective target.path names names' (leads.2.2.named entries)
      (leads'.2.2.named entries) same
    exact absurd (congrArg (pathTo target.path) equal) differ

end Listed

theorem isTestFile_iff (path : Path) :
    isTestFile path = true ↔ ∃ stem, path.stem? = some (Bytes.ofString stem) ∧
      ("Test".toList <:+ stem.toList ∨ "_test".toList <:+ stem.toList) := by
  simp only [isTestFile, Option.any_eq_true, Option.bind_eq_some_iff, Bytes.decode_eq_some,
    Bool.or_eq_true, List.isSuffixOf_iff_suffix]
  constructor
  next =>
    rintro ⟨stem, ⟨_, found, rfl⟩, ends⟩
    exact ⟨stem, found, ends⟩
  next =>
    rintro ⟨stem, found, ends⟩
    exact ⟨stem, ⟨_, found, rfl⟩, ends⟩

/-- A file below a target that is left out with the tests: it lies in a directory of tests or has a text
for a name that ends like the name of a test. -/
def IsTest (target path : Path) : Prop :=
  (∃ name ∈ testDirectories, .name (Bytes.ofString name) ∈ path.directoriesBelow target) ∨
    ∃ stem, path.stem? = some (Bytes.ofString stem) ∧
      ("Test".toList <:+ stem.toList ∨ "_test".toList <:+ stem.toList)

instance (target path : Path) : Decidable (IsTest target path) :=
  decidable_of_iff ((∃ name ∈ testDirectories, .name (Bytes.ofString name) ∈
    path.directoriesBelow target) ∨ isTestFile path = true)
    (or_congr_right (isTestFile_iff path))

theorem not_isTest_iff {working : Location} {levels : List Ignore.Level} {location : Location}
    {refusal : Refusal} {entries : List (Bytes × FileTree)} {names : List Bytes} (target : Path)
    (wellFormed : FileTree.WellFormed (.directory refusal entries))
    (reaches : Reaches working true levels location entries names) :
    ¬ IsTest target (pathTo target names) ↔
      Reaches working false levels location entries names ∧
        isTestFile (pathTo target names) = false := by
  have directories : (∃ text ∈ testDirectories, Component.name (Bytes.ofString text) ∈
      (pathTo target names).directoriesBelow target) ↔
        ∃ name ∈ names.dropLast, ∃ text ∈ testDirectories, name = Bytes.ofString text := by
    rw [Path.directoriesBelow_pathTo target names (reaches.named wellFormed)]
    simp only [List.mem_map, Component.name.injEq, exists_eq_right]
    constructor
    next =>
      rintro ⟨text, listed, member⟩
      exact ⟨_, member, text, listed, rfl⟩
    next =>
      rintro ⟨_, member, text, listed, rfl⟩
      exact ⟨text, listed, member⟩
  rw [IsTest, not_or, directories, ← isTestFile_iff, Bool.not_eq_true, reaches_without_tests,
    and_iff_right reaches]
  apply and_congr_left
  simp only [not_exists, not_and, ne_eq, implies_true]

-- Among the tests a file whose name is no text, which is not named like one.
def testedEntries : List (Bytes × FileTree) :=
  [(Bytes.ofString "ATest.php", .file (.ok [])), (Bytes.ofString "a.php", .file (.ok [])),
    (Bytes.ofString "spec", .directory .nothing [(Bytes.ofString "b.php", .file (.ok []))]),
    (0xff :: Bytes.ofString "Test.php", .file (.error .denied))]

-- A target that is called like a directory of tests, with tests of both kinds below it.
def testedTree : Location :=
  .top (.directory .nothing [(Bytes.ofString "tests", .directory .nothing testedEntries)])

theorem testedTree_wellFormed : testedTree.WellFormed := by
  refine ⟨?_, by simp [testedTree, Location.top]⟩
  refine .directory _ _ (by decide +kernel) (by decide +kernel) (List.forall_mem_singleton.mpr ?_)
  refine .directory _ _ (by decide +kernel) (by decide +kernel) ?_
  simp only [testedEntries, List.forall_mem_cons, List.not_mem_nil, false_implies, implies_true,
    and_true]
  refine ⟨.file _, .file _, ?_, .file _⟩
  exact .directory _ _ (by decide +kernel) (by decide +kernel) (List.forall_mem_singleton.mpr (.file _))

def testedLocation : Location :=
  testedTree.child (Bytes.ofString "tests") (.directory .nothing testedEntries)

theorem testedTree_sourceFiles :
    sourceFiles ⟨.ofString "/tests", true, .default⟩ testedTree =
      .ok [.ofString "/tests/ATest.php", .ofString "/tests/a.php", .ofString "/tests/spec/b.php",
        ⟨Bytes.ofString "/tests/" ++ 0xff :: Bytes.ofString "Test.php"⟩] := by
  have leads : testedTree.find (.ofString "/tests") = .ok testedLocation := rfl
  have walked : found ⟨.ofString "/tests", true, .default⟩ testedTree testedLocation =
      [.file [Bytes.ofString "ATest.php"], .file [Bytes.ofString "a.php"],
        .file [Bytes.ofString "spec", Bytes.ofString "b.php"],
        .file [0xff :: Bytes.ofString "Test.php"]] := by
    simp only [found, testedLocation, testedEntries, Location.tree, Location.child, FileTree.entries,
      FileTree.refusal, List.head?_cons, Option.map_some, Option.getD_some, walk]
    decide +kernel
  apply sourceFiles_of_found testedTree _ testedLocation _ _ leads rfl walked
  next => decide +kernel
  next => decide +kernel

end Target

end CognitiveComplexity
