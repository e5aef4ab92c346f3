import CognitiveComplexity.Proofs.Path.Components
import Mathlib.Data.List.Nodup

set_option autoImplicit false

namespace CognitiveComplexity

-- Every directory has proper names for its entries, each for one of them.
inductive FileTree.WellFormed : FileTree → Prop
  | file (content : Except AccessFault Bytes) : WellFormed (.file content)
  | directory (refusal : Refusal) (entries : List (Bytes × FileTree))
      (distinct : (entries.map (·.1)).Nodup) (named : ∀ entry ∈ entries, IsName entry.1)
      (below : ∀ entry ∈ entries, WellFormed entry.2) : WellFormed (.directory refusal entries)
  | link (destination : Path) : WellFormed (.link destination)
  | special (content : Except AccessFault Bytes) : WellFormed (.special content)

theorem FileTree.WellFormed.cons {refusal : Refusal} {name : Bytes} {tree : FileTree}
    {rest : List (Bytes × FileTree)}
    (wellFormed : WellFormed (.directory refusal ((name, tree) :: rest))) :
    IsName name ∧ name ∉ rest.map (·.1) ∧ tree.WellFormed ∧ WellFormed (.directory refusal rest) := by
  cases wellFormed with
  | directory _ _ distinct named below =>
    rw [List.map_cons, List.nodup_cons] at distinct
    exact ⟨named _ List.mem_cons_self, distinct.1, below _ List.mem_cons_self,
      .directory refusal rest distinct.2
        (fun entry member => named entry (List.mem_cons_of_mem _ member))
        fun entry member => below entry (List.mem_cons_of_mem _ member)⟩

theorem FileTree.WellFormed.entries {tree : FileTree} (wellFormed : tree.WellFormed) :
    WellFormed (.directory tree.refusal tree.entries) := by
  cases wellFormed with
  | directory refusal entries distinct named below =>
    exact .directory refusal entries distinct named below
  | file | link | special =>
    exact .directory .nothing [] List.nodup_nil (List.forall_mem_nil _) (List.forall_mem_nil _)

theorem FileTree.WellFormed.inside {refusal : Refusal} {entries : List (Bytes × FileTree)}
    (wellFormed : WellFormed (.directory refusal entries)) : ∀ entry ∈ entries, entry.2.WellFormed := by
  cases wellFormed with
  | directory _ _ _ _ below => exact below

namespace Location

-- A property of the whole tree and of all that is passed on the way.
structure Everywhere (holds : FileTree → Prop) (location : Location) : Prop where
  root : holds location.root
  passed : ∀ entry ∈ location.trail, holds entry.2

abbrev WellFormed (location : Location) : Prop := location.Everywhere FileTree.WellFormed

namespace Everywhere

variable {holds : FileTree → Prop} {location : Location} (everywhere : location.Everywhere holds)

include everywhere

theorem start (path : Path) : (location.start path).Everywhere holds := by
  unfold Location.start
  split
  next => exact ⟨everywhere.root, by simp [top]⟩
  next => exact everywhere

theorem tree : holds location.tree := by
  obtain ⟨root, trail⟩ := location
  cases trail with
  | nil => exact everywhere.root
  | cons entry _ => exact everywhere.passed entry List.mem_cons_self

theorem parent : location.parent.Everywhere holds :=
  ⟨everywhere.root, fun entry member => everywhere.passed entry (List.mem_of_mem_tail member)⟩

theorem child {name : Bytes} {tree : FileTree} (whole : holds tree) :
    (location.child name tree).Everywhere holds :=
  ⟨everywhere.root, List.forall_mem_cons.mpr ⟨whole, everywhere.passed⟩⟩

variable (below : ∀ {refusal entries}, holds (.directory refusal entries) → ∀ entry ∈ entries, holds entry.2)

include below

theorem entry {refusal : Refusal} {entries : List (Bytes × FileTree)} {name : Bytes} {tree : FileTree}
    (here : location.tree = .directory refusal entries) (found : entries.lookup name = some tree) :
    holds tree := by
  have whole := everywhere.tree
  obtain ⟨before, after, split, _⟩ := List.lookup_eq_some_iff.mp found
  rw [here] at whole
  exact below whole (name, tree) (by simp [split])

end Everywhere

def Passage.location : Passage → Location
  | .arrived location => location
  | .met location _ _ => location

section Find

variable {holds : FileTree → Prop}
  (below : ∀ {refusal entries}, holds (.directory refusal entries) → ∀ entry ∈ entries, holds entry.2)

include below

theorem pass_everywhere (location : Location) (segments : List Bytes) (passage : Passage)
    (everywhere : location.Everywhere holds) (leads : location.pass segments = .ok passage) :
    passage.location.Everywhere holds := by
  fun_induction pass location segments with
  | case1 =>
    cases leads
    exact everywhere
  | case2 location segment rest refusal entries here idle ih => exact ih everywhere leads
  | case3 => cases leads
  | case4 location segment rest refusal entries here filled open_ idle ih => exact ih everywhere leads
  | case5 location segment rest refusal entries here filled open_ busy up ih =>
    exact ih everywhere.parent leads
  | case6 => cases leads
  | case7 =>
    cases leads
    exact everywhere
  | case8 location segment rest refusal entries here filled open_ busy down tree noLink found ih =>
    exact ih (everywhere.child (everywhere.entry below here found)) leads
  | case9 => cases leads

theorem follow_everywhere (links : Nat) (location : Location) (segments : List Bytes) (there : Location)
    (everywhere : location.Everywhere holds) (leads : follow links location segments = .ok there) :
    there.Everywhere holds := by
  fun_induction follow links location segments with
  | case1 => cases leads
  | case2 links location segments there arrived =>
    cases leads
    exact pass_everywhere below location segments _ everywhere arrived
  | case3 => cases leads
  | case4 => cases leads
  | case5 location segments here destination rest met links filled ih =>
    exact ih ((pass_everywhere below location segments _ everywhere met).start destination) leads

end Find

theorem find_wellFormed (working : Location) (path : Path) (location : Location)
    (wellFormed : working.WellFormed) (leads : working.find path = .ok location) :
    location.WellFormed := by
  unfold find at leads
  split at leads
  next => cases leads
  next =>
    split at leads
    next => cases leads
    next =>
      exact follow_everywhere FileTree.WellFormed.inside _ _ _ _ (wellFormed.start path) leads

end Location

namespace Target

def Found.names : Found → List Bytes
  | .file names => names
  | .refused names _ => names

theorem filterMap_file_sublist (found : List Found) :
    (found.filterMap Found.file?).Sublist (found.map Found.names) := by
  induction found with
  | nil => exact .slnil
  | cons first rest ih =>
    cases first with
    | file names => exact ih.cons_cons names
    | refused names fault => exact ih.cons names

-- Names that lead on from some names by one of the entries.
def Below (above : List Bytes) (entries : List (Bytes × FileTree)) (found : List Bytes) : Prop :=
  ∃ name more, found = above ++ name :: more ∧ name ∈ entries.map (·.1) ∧
    ∀ part ∈ name :: more, IsName part

section Below

variable {above : List Bytes} {entries rest : List (Bytes × FileTree)} {found : List Bytes}

theorem Below.later {entry : Bytes × FileTree} (below : Below above rest found) :
    Below above (entry :: rest) found := by
  obtain ⟨name, more, split, listed, proper⟩ := below
  exact ⟨name, more, split, List.mem_cons_of_mem _ listed, proper⟩

theorem Below.here {name : Bytes} {tree : FileTree} (proper : IsName name) :
    Below above ((name, tree) :: rest) (above ++ [name]) :=
  ⟨name, [], rfl, List.mem_cons_self, by simpa using proper⟩

theorem Below.inside {name : Bytes} {tree : FileTree} (proper : IsName name)
    (below : Below (above ++ [name]) entries found) : Below above ((name, tree) :: rest) found := by
  obtain ⟨inner, more, rfl, _, parts⟩ := below
  exact ⟨name, inner :: more, by simp, List.mem_cons_self, List.forall_mem_cons.mpr ⟨proper, parts⟩⟩

theorem Below.ne {name : Bytes} {more : List Bytes} (fresh : name ∉ rest.map (·.1))
    (below : Below above rest found) : above ++ name :: more ≠ found := by
  obtain ⟨other, others, rfl, listed, _⟩ := below
  intro same
  have heads := (List.cons.inj (List.append_cancel_left same)).1
  exact fresh (heads ▸ listed)

end Below

-- Everything found has the names of a place below, and no two things have the same.
structure Apart (above : List Bytes) (entries : List (Bytes × FileTree)) (found : List Found) :
    Prop where
  below : ∀ names ∈ found.map Found.names, Below above entries names
  nodup : (found.map Found.names).Nodup

namespace Apart

variable {above : List Bytes} {name : Bytes} {tree : FileTree} {rest : List (Bytes × FileTree)}
  {others : List Found}

theorem later (apart : Apart above rest others) : Apart above ((name, tree) :: rest) others :=
  ⟨fun names member => (apart.below names member).later, apart.nodup⟩

theorem cons {first : Found} (named : first.names = above ++ [name]) (proper : IsName name)
    (fresh : name ∉ rest.map (·.1)) (apart : Apart above rest others) :
    Apart above ((name, tree) :: rest) (first :: others) := by
  constructor
  next =>
    rw [List.map_cons, named]
    exact List.forall_mem_cons.mpr ⟨.here proper, fun names member => (apart.below names member).later⟩
  next =>
    rw [List.map_cons, named]
    exact List.nodup_cons.mpr ⟨fun member => (apart.below _ member).ne fresh rfl, apart.nodup⟩

theorem append {entries : List (Bytes × FileTree)} {found : List Found}
    (inside : Apart (above ++ [name]) entries found) (proper : IsName name)
    (fresh : name ∉ rest.map (·.1)) (apart : Apart above rest others) :
    Apart above ((name, tree) :: rest) (found ++ others) := by
  constructor
  next =>
    rw [List.map_append, List.forall_mem_append]
    exact ⟨fun names member => (inside.below names member).inside proper,
      fun names member => (apart.below names member).later⟩
  next =>
    rw [List.map_append]
    refine List.nodup_append.mpr ⟨inside.nodup, apart.nodup, ?_⟩
    intro names member other member'
    obtain ⟨part, more, rfl, _, _⟩ := inside.below names member
    rw [List.append_assoc]
    exact (apart.below other member').ne fresh

end Apart

theorem walk_apart (working : Location) (includeTests : Bool) (levels : List Ignore.Level)
    (location : Location) (above : List Bytes) (entries : List (Bytes × FileTree)) (refusal : Refusal)
    (wellFormed : FileTree.WellFormed (.directory refusal entries)) :
    Apart above entries (walk working includeTests levels location above entries) := by
  fun_induction walk working includeTests levels location above entries generalizing refusal with
  | case1 => exact ⟨by simp, List.nodup_nil⟩
  | case2 levels location above name content rest others hidden ih =>
    obtain ⟨_, _, _, later⟩ := wellFormed.cons
    exact (ih _ later).later
  | case3 levels location above name content rest others shown ih =>
    obtain ⟨proper, fresh, _, later⟩ := wellFormed.cons
    exact (ih _ later).cons rfl proper fresh
  | case4 levels location above name refusal entries rest others closed ih =>
    obtain ⟨_, _, _, later⟩ := wellFormed.cons
    exact (ih _ later).later
  | case5 levels location above name refusal entries rest others opened fault refused ih =>
    obtain ⟨proper, fresh, _, later⟩ := wellFormed.cons
    exact (ih _ later).cons rfl proper fresh
  | case6 levels location above name refusal entries rest others opened listed inner level ih ihInner =>
    obtain ⟨proper, fresh, tree, later⟩ := wellFormed.cons
    exact (ihInner _ tree).append proper fresh (ih _ later)
  | case7 levels location above name destination rest ih =>
    obtain ⟨_, _, _, later⟩ := wellFormed.cons
    exact (ih _ later).later
  | case8 levels location above name content rest ih =>
    obtain ⟨_, _, _, later⟩ := wellFormed.cons
    exact (ih _ later).later

theorem files_apart (working : Location) (target : Target) (location : Location)
    (wellFormed : location.WellFormed) :
    ((target.found working location).filterMap Found.file?).Nodup ∧
      ∀ names ∈ (target.found working location).filterMap Found.file?,
        ∀ name ∈ names, IsName name := by
  unfold found
  split
  next => simp
  next =>
    split
    next => exact ⟨List.nodup_nil, List.forall_mem_nil _⟩
    next =>
      have apart := walk_apart working target.includeTests (Ignore.Level.along working location)
        location [] location.tree.entries location.tree.refusal wellFormed.tree.entries
      have among := filterMap_file_sublist (walk working target.includeTests
        (Ignore.Level.along working location) location [] location.tree.entries)
      refine ⟨apart.nodup.sublist among, ?_⟩
      intro names member
      obtain ⟨name, more, rfl, _, proper⟩ := apart.below names (among.subset member)
      exact proper

theorem listed_nodup (working : Location) (target : Target) (location : Location)
    (wellFormed : location.WellFormed) : (target.listed working location).Nodup := by
  obtain ⟨nodup, proper⟩ := files_apart working target location wellFormed
  refine (List.mergeSort_perm _ _).nodup_iff.mpr (List.Nodup.filter _ (nodup.map_on ?_))
  intro one member other member' same
  exact Path.components_injective target.path one other (proper one member) (proper other member')
    (congrArg Path.components same)

theorem sourceFiles_nodup (working : Location) (target : Target) (paths : List Path)
    (wellFormed : working.WellFormed) (found : target.sourceFiles working = .ok paths) :
    paths.Nodup := by
  unfold sourceFiles at found
  split at found
  next => cases found
  next location leads =>
    have there := Location.find_wellFormed working target.path location wellFormed leads
    split at found
    next =>
      cases found
      exact List.nodup_singleton _
    next =>
      cases found
      exact listed_nodup working target location there

-- A listing from what the walk comes to, where the paths that are wanted are in order already.
theorem sourceFiles_of_found (working : Location) (target : Target) (location : Location)
    (found : List Found) (paths : List Path) (leads : working.find target.path = .ok location)
    (directory : location.tree.isFile = false) (walked : target.found working location = found)
    (wanted : (((found.filterMap Found.file?).map (pathTo target.path)).filter fun path =>
      target.filter.accepts target.path path && (target.includeTests || !isTestFile path)) = paths)
    (sorted : paths.Pairwise fun one other => one.lessOrEqual other = true) :
    target.sourceFiles working = .ok paths := by
  simp only [sourceFiles, leads, directory, listed, walked, wanted, Bool.false_eq_true, if_false,
    List.mergeSort_of_pairwise sorted]

end Target

end CognitiveComplexity
