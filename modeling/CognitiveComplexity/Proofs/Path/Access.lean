import CognitiveComplexity.Proofs.Path.Listing

set_option autoImplicit false

namespace CognitiveComplexity

-- A tree without links whose directories can all be searched.
inductive FileTree.Plain : FileTree → Prop
  | file (content : Except AccessFault Bytes) : Plain (.file content)
  | directory (refusal : Refusal) (entries : List (Bytes × FileTree))
      (searchable : refusal.search = none) (below : ∀ entry ∈ entries, Plain entry.2) :
      Plain (.directory refusal entries)
  | special (content : Except AccessFault Bytes) : Plain (.special content)

theorem FileTree.Plain.inside {refusal : Refusal} {entries : List (Bytes × FileTree)}
    (plain : Plain (.directory refusal entries)) : ∀ entry ∈ entries, entry.2.Plain := by
  cases plain with
  | directory _ _ _ below => exact below

theorem FileTree.Plain.searchable {refusal : Refusal} {entries : List (Bytes × FileTree)}
    (plain : Plain (.directory refusal entries)) : refusal.search = none := by
  cases plain with
  | directory _ _ searchable _ => exact searchable

namespace Location

def IsFile (working : Location) (path : Path) : Prop :=
  ∃ location, working.find path = .ok location ∧ location.tree.isFile = true

theorem hasFile_iff (working : Location) (path : Path) :
    working.hasFile path = true ↔ working.IsFile path := by
  unfold hasFile IsFile
  cases working.find path <;> simp

-- Without links and refusals a way ends early only where a name or a directory is missing.
theorem pass_plain (location : Location) (segments : List Bytes)
    (plain : location.Everywhere FileTree.Plain) :
    (∃ there, location.pass segments = .ok (.arrived there)) ∨
      location.pass segments = .error .notFound ∨ location.pass segments = .error .notADirectory := by
  fun_induction pass location segments with
  | case1 location => exact .inl ⟨location, rfl⟩
  | case2 location segment rest refusal entries here idle ih => exact ih plain
  | case3 location segment rest refusal entries here filled fault refused =>
    have granted := (here ▸ plain.tree : FileTree.Plain _).searchable
    rw [granted] at refused
    cases refused
  | case4 location segment rest refusal entries here filled open_ idle ih => exact ih plain
  | case5 location segment rest refusal entries here filled open_ busy up ih => exact ih plain.parent
  | case6 => exact .inr (.inl rfl)
  | case7 location segment rest refusal entries here filled open_ busy down destination found =>
    cases plain.entry FileTree.Plain.inside here found
  | case8 location segment rest refusal entries here filled open_ busy down tree noLink found ih =>
    exact ih (plain.child (plain.entry FileTree.Plain.inside here found))
  | case9 => exact .inr (.inr rfl)

theorem find_plain (working : Location) (path : Path) (fault : AccessFault)
    (plain : working.Everywhere FileTree.Plain) (text : 0 ∉ path.bytes)
    (fails : working.find path = .error fault) : fault = .notFound ∨ fault = .notADirectory := by
  unfold find at fails
  split at fails
  next =>
    cases fails
    exact .inl rfl
  next =>
    rw [if_neg (by simpa using text), reach, follow] at fails
    rcases pass_plain (working.start path) path.segments (plain.start path) with
      ⟨there, arrives⟩ | missing | blocked
    next =>
      rw [arrives] at fails
      cases fails
    next =>
      rw [missing] at fails
      cases fails
      exact .inl rfl
    next =>
      rw [blocked] at fails
      cases fails
      exact .inr rfl

theorem pass_idle (location : Location) (segments : List Bytes)
    (idle : ∀ segment ∈ segments, Path.isIdle segment = true) (passage : Passage)
    (leads : location.pass segments = .ok passage) :
    passage = .arrived location ∧ (segments ≠ [] → location.tree.isFile = false) := by
  have later {segment : Bytes} {rest : List Bytes}
      (idle : ∀ other ∈ segment :: rest, Path.isIdle other = true) :
      ∀ other ∈ rest, Path.isIdle other = true :=
    fun other member => idle other (List.mem_cons_of_mem _ member)
  fun_induction pass location segments with
  | case1 =>
    cases leads
    exact ⟨rfl, fun filled => absurd rfl filled⟩
  | case2 location segment rest refusal entries here empty ih =>
    exact ⟨(ih (later idle) leads).1, fun _ => by rw [here]; rfl⟩
  | case4 location segment rest refusal entries here filled open_ dot ih =>
    exact ⟨(ih (later idle) leads).1, fun _ => by rw [here]; rfl⟩
  | case3 => cases leads
  | case9 => cases leads
  | case5 location segment rest refusal entries here filled open_ busy up ih =>
    exact absurd (idle segment List.mem_cons_self) busy
  | case6 location segment rest refusal entries here filled open_ busy down missing =>
    exact absurd (idle segment List.mem_cons_self) busy
  | case7 location segment rest refusal entries here filled open_ busy down destination found =>
    exact absurd (idle segment List.mem_cons_self) busy
  | case8 location segment rest refusal entries here filled open_ busy down tree noLink found ih =>
    exact absurd (idle segment List.mem_cons_self) busy

theorem find_filled (working : Location) (path : Path) (location : Location)
    (leads : working.find path = .ok location) :
    path.bytes.isEmpty = false ∧ (working.start path).reach path.segments = .ok location := by
  unfold find at leads
  split at leads
  next => cases leads
  next filled =>
    split at leads
    next => cases leads
    next => exact ⟨by simpa using filled, leads⟩

theorem idle_of_orphan (path : Path) (filled : path.bytes.isEmpty = false)
    (orphan : path.parent? = none) : ∀ segment ∈ path.segments, Path.isIdle segment = true := by
  obtain ⟨first, rest, split⟩ := path.segments_cons
  have short : path.components = [] ∨ path.components = [.root] := by
    unfold Path.parent? at orphan
    split at orphan
    next short => simpa using short
    next => split at orphan <;> cases orphan
  rw [Path.components_split path first rest split, Path.leading?, filled] at short
  rw [split]
  by_cases slash : first = []
  next =>
    subst slash
    have nothing : rest.filterMap Path.component? = [] := by simpa using short
    refine List.forall_mem_cons.mpr ⟨rfl, fun segment member => ?_⟩
    exact (Path.component_eq_none segment).mp (List.filterMap_eq_nil_iff.mp nothing segment member)
  next =>
    by_cases dot : first = [Byte.dot]
    next => simp [dot] at short
    next =>
      have busy : Path.isIdle first = false := by simp [Path.isIdle, slash, dot]
      simp only [slash, dot, beq_iff_eq, Path.component?, busy, Bool.false_eq_true, if_false] at short
      split at short <;> simp at short

-- Only the root has no parent, and the root is a directory.
theorem parent_of_file (working : Location) (path : Path) (isFile : working.IsFile path) :
    ∃ parent, path.parent? = some parent := by
  obtain ⟨location, leads, file⟩ := isFile
  obtain ⟨filled, reached⟩ := find_filled working path location leads
  obtain ⟨first, rest, split⟩ := path.segments_cons
  rw [← Option.ne_none_iff_exists']
  intro orphan
  have idle := idle_of_orphan path filled orphan
  rw [reach, follow] at reached
  cases passed : (working.start path).pass path.segments with
  | error fault =>
    rw [passed] at reached
    cases reached
  | ok passage =>
    obtain ⟨rfl, directory⟩ := pass_idle _ _ idle passage passed
    rw [passed] at reached
    cases reached
    rw [directory (by simp [split])] at file
    cases file

end Location

end CognitiveComplexity
