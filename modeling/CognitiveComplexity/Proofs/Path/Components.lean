import CognitiveComplexity.Proofs.Path.Order
import CognitiveComplexity.SourceFiles
import Mathlib.Data.List.TakeWhile

set_option autoImplicit false

namespace CognitiveComplexity

def IsName (name : Bytes) : Prop :=
  name ≠ [] ∧ name ≠ [Byte.dot] ∧ name ≠ [Byte.dot, Byte.dot] ∧ Byte.slash ∉ name ∧ 0 ∉ name

instance (name : Bytes) : Decidable (IsName name) := inferInstanceAs (Decidable (_ ∧ _))

namespace Path

theorem splitSlashes_ne_nil (bytes : Bytes) : splitSlashes bytes ≠ [] := by
  fun_cases splitSlashes bytes <;> simp

theorem splitSlashes_slash (left right : Bytes) :
    splitSlashes (left ++ Byte.slash :: right) = splitSlashes left ++ splitSlashes right := by
  induction left with
  | nil => rfl
  | cons b left ih =>
    have filled := splitSlashes_ne_nil left
    rw [List.cons_append, splitSlashes, splitSlashes, ih]
    split
    next => rfl
    next =>
      cases split : splitSlashes left with
      | nil => exact absurd split filled
      | cons segment segments => rfl

theorem splitSlashes_unslashed (bytes : Bytes) (unslashed : Byte.slash ∉ bytes) :
    splitSlashes bytes = [bytes] := by
  induction bytes with
  | nil => rfl
  | cons b bytes ih =>
    simp only [List.mem_cons, not_or] at unslashed
    have other : (b == Byte.slash) = false := by simpa using Ne.symm unslashed.1
    simp [splitSlashes, other, ih unslashed.2]

theorem splitSlashes_parts (bytes : Bytes) : ∀ segment ∈ splitSlashes bytes, Byte.slash ∉ segment := by
  induction bytes with
  | nil => simp [splitSlashes]
  | cons b bytes ih =>
    rw [splitSlashes]
    split
    next => simpa using ih
    next other =>
      have differs : Byte.slash ≠ b := by
        rintro rfl
        exact other rfl
      cases split : splitSlashes bytes with
      | nil => simpa using differs
      | cons first rest =>
        rw [split] at ih
        rw [List.forall_mem_cons] at ih ⊢
        exact ⟨List.not_mem_cons_of_ne_of_not_mem differs ih.1, ih.2⟩

theorem segments_ofSegments (segments : List Bytes) (filled : segments ≠ [])
    (unslashed : ∀ segment ∈ segments, Byte.slash ∉ segment) :
    (ofSegments segments).segments = segments := by
  unfold ofSegments
  change splitSlashes (List.intercalate [Byte.slash] segments) = segments
  induction segments with
  | nil => exact absurd rfl filled
  | cons first rest ih =>
    have single := splitSlashes_unslashed first (unslashed first List.mem_cons_self)
    cases rest with
    | nil => simpa [List.intercalate] using single
    | cons second more =>
      have later := ih (List.cons_ne_nil _ _) fun other member =>
        unslashed other (List.mem_cons_of_mem _ member)
      rw [List.intercalate_cons_cons, List.append_assoc, List.singleton_append, splitSlashes_slash,
        single, later]
      rfl

theorem ofSegments_segments (path : Path) : ofSegments path.segments = path := by
  obtain ⟨bytes⟩ := path
  simp only [ofSegments, segments, mk.injEq]
  induction bytes with
  | nil => rfl
  | cons b bytes ih =>
    have filled := splitSlashes_ne_nil bytes
    rw [splitSlashes]
    cases split : splitSlashes bytes with
    | nil => exact absurd split filled
    | cons first rest =>
      rw [split] at ih
      split
      next same =>
        rw [List.intercalate_cons_cons, ih, beq_iff_eq.mp same]
        rfl
      next =>
        cases rest with
        | nil => simp_all [List.intercalate]
        | cons second more =>
          rw [List.intercalate_cons_cons] at ih ⊢
          simp [← ih]

theorem ofSegments_isEmpty (first : Bytes) (rest : List Bytes) :
    (ofSegments (first :: rest)).bytes.isEmpty = (first.isEmpty && rest.isEmpty) := by
  cases rest with
  | nil => simp [ofSegments, List.intercalate]
  | cons second more => simp [ofSegments, List.intercalate_cons_cons]

theorem component_name (name : Bytes) (proper : IsName name) :
    component? name = some (.name name) := by
  obtain ⟨filled, dot, dots, _⟩ := proper
  simp [component?, isIdle, isParent, filled, dot, dots]

theorem component_eq_none (segment : Bytes) : component? segment = none ↔ isIdle segment = true := by
  unfold component?
  split
  next idle => simp [idle]
  next busy => split <;> simp [busy]

theorem components_split (path : Path) (first : Bytes) (rest : List Bytes)
    (split : path.segments = first :: rest) :
    path.components = (path.leading? first).toList ++ rest.filterMap component? := by
  simp [components, split]

theorem leading_filled (path other : Path) (segment : Bytes) (filled : path.bytes.isEmpty = false)
    (otherFilled : other.bytes.isEmpty = false) : path.leading? segment = other.leading? segment := by
  simp [leading?, filled, otherFilled]

-- The bytes in front of the slash that a name is put behind; a directory may be written with it.
theorem join_filled (directory : Path) (name : Bytes) (filled : directory.bytes.isEmpty = false) :
    ∃ front, (directory.join name).bytes = front ++ Byte.slash :: name ∧
      (directory.bytes = front ∨ directory.bytes = front ++ [Byte.slash]) := by
  unfold join
  rw [filled, Bool.false_or]
  split
  next slashed =>
    obtain ⟨front, written⟩ := List.getLast?_eq_some_iff.mp (beq_iff_eq.mp slashed)
    exact ⟨front, by simp [written], .inr written⟩
  next => exact ⟨_, rfl, .inl rfl⟩

theorem components_join (directory : Path) (name : Bytes) (proper : IsName name) :
    (directory.join name).components = directory.components ++ [.name name] := by
  have single := splitSlashes_unslashed name proper.2.2.2.1
  have named := component_name name proper
  cases filled : directory.bytes.isEmpty with
  | false =>
    obtain ⟨front, joined, written⟩ := join_filled directory name filled
    obtain ⟨first, rest, split⟩ := List.exists_cons_of_ne_nil (splitSlashes_ne_nil front)
    have joinFilled : (directory.join name).bytes.isEmpty = false := by simp [joined]
    have cut : (directory.join name).segments = first :: (rest ++ [name]) := by
      rw [segments, joined, splitSlashes_slash, single, split]
      rfl
    rw [components_split _ first _ cut, leading_filled _ directory _ joinFilled filled]
    rcases written with written | written
    next =>
      rw [components_split directory first rest (by rw [segments, written, split])]
      simp [named]
    next =>
      have closed : directory.segments = first :: (rest ++ [[]]) := by
        rw [segments, written, splitSlashes_slash, split]
        rfl
      have idle : component? [] = none := rfl
      rw [components_split directory first _ closed]
      simp [named, idle]
  | true =>
    have empty := List.isEmpty_iff.mp filled
    have joined : (directory.join name).bytes = name := by simp [join, empty]
    have nothing : directory.components = [] := by
      simp [components, segments, empty, splitSlashes, leading?]
    obtain ⟨some, dot, _⟩ := proper
    rw [components_split _ name [] (by rw [segments, joined, single]), nothing]
    simp [leading?, joined, some, dot, named]

theorem components_pathTo (target : Path) (names : List Bytes) (proper : ∀ name ∈ names, IsName name) :
    (Target.pathTo target names).components = target.components ++ names.map .name := by
  unfold Target.pathTo
  induction names generalizing target with
  | nil => simp
  | cons name rest ih =>
    rw [List.foldl_cons, ih _ fun other member => proper other (List.mem_cons_of_mem _ member),
      components_join target name (proper name List.mem_cons_self), List.append_assoc]
    rfl

theorem components_injective (target : Path) (one other : List Bytes)
    (proper : ∀ name ∈ one, IsName name) (proper' : ∀ name ∈ other, IsName name)
    (same : (Target.pathTo target one).components = (Target.pathTo target other).components) :
    one = other := by
  rw [components_pathTo target one proper, components_pathTo target other proper',
    List.append_cancel_left_eq] at same
  exact List.map_injective_iff.mpr (fun _ _ => Component.name.inj) same

-- The directories between another path and the last component.
def directoriesBelow (path base : Path) : List Component :=
  (path.components.drop base.components.length).dropLast

theorem directoriesBelow_pathTo (target : Path) (names : List Bytes)
    (proper : ∀ name ∈ names, IsName name) :
    (Target.pathTo target names).directoriesBelow target = names.dropLast.map .name := by
  rw [directoriesBelow, components_pathTo target names proper, List.drop_left, List.map_dropLast]

-- What is trimmed is idle, and what is left ends in a component.
theorem trimEnd_split (segments : List Bytes) :
    ∃ idle, segments = trimEnd segments ++ idle ∧ (∀ segment ∈ idle, isIdle segment = true) ∧
      ∀ front last, trimEnd segments = front ++ [last] → isIdle last = false := by
  refine ⟨(segments.reverse.takeWhile isIdle).reverse, ?_, ?_, ?_⟩
  next =>
    rw [trimEnd, ← List.reverse_append, List.takeWhile_append_dropWhile, List.reverse_reverse]
  next =>
    intro segment member
    exact List.mem_takeWhile_imp (List.mem_reverse.mp member)
  next =>
    intro front last kept
    have first := congrArg List.reverse kept
    rw [trimEnd, List.reverse_reverse, List.reverse_append] at first
    have stops := List.head?_dropWhile_not isIdle segments.reverse
    rw [first] at stops
    simpa using stops

theorem filterMap_trimEnd (segments : List Bytes) :
    (trimEnd segments).filterMap component? = segments.filterMap component? := by
  obtain ⟨idle, split, passed, _⟩ := trimEnd_split segments
  have nothing : idle.filterMap component? = [] :=
    List.filterMap_eq_nil_iff.mpr fun segment member =>
      (component_eq_none segment).mpr (passed segment member)
  conv_rhs => rw [split, List.filterMap_append, nothing, List.append_nil]

theorem components_ofSegments (path : Path) (first : Bytes) (rest : List Bytes)
    (unslashed : ∀ segment ∈ first :: rest, Byte.slash ∉ segment)
    (same : (ofSegments (first :: rest)).bytes.isEmpty = path.bytes.isEmpty) :
    (ofSegments (first :: rest)).components =
      (path.leading? first).toList ++ rest.filterMap component? := by
  rw [components_split _ _ _ (segments_ofSegments _ (List.cons_ne_nil _ _) unslashed)]
  unfold leading?
  rw [same]

theorem segments_cons (path : Path) : ∃ first rest, path.segments = first :: rest :=
  List.exists_cons_of_ne_nil (splitSlashes_ne_nil path.bytes)

theorem trimEnd_subset (segments : List Bytes) : ∀ segment ∈ trimEnd segments, segment ∈ segments := by
  obtain ⟨idle, split, _⟩ := trimEnd_split segments
  intro segment member
  rw [split]
  exact List.mem_append_left idle member

section Trimmed

variable {path : Path} {first : Bytes} {rest : List Bytes} (split : path.segments = first :: rest)

include split

theorem isEmpty_of_segments : path.bytes.isEmpty = (first.isEmpty && rest.isEmpty) := by
  have whole := ofSegments_segments path
  rw [split] at whole
  rw [← ofSegments_isEmpty, whole]

theorem kept_unslashed : ∀ segment ∈ first :: trimEnd rest, Byte.slash ∉ segment := by
  have parts : ∀ segment ∈ path.segments, Byte.slash ∉ segment := splitSlashes_parts path.bytes
  rw [split] at parts
  refine List.forall_mem_cons.mpr ⟨parts first List.mem_cons_self, fun segment member => ?_⟩
  exact parts segment (List.mem_cons_of_mem _ (trimEnd_subset rest segment member))

theorem isEmpty_of_kept {kept : Bytes} (member : kept ∈ trimEnd rest) : path.bytes.isEmpty = false := by
  have filled : rest.isEmpty = false :=
    List.isEmpty_eq_false_iff_exists_mem.mpr ⟨kept, trimEnd_subset rest kept member⟩
  rw [isEmpty_of_segments split, filled, Bool.and_false]

theorem components_kept :
    path.components = (path.leading? first).toList ++ (trimEnd rest).filterMap component? := by
  rw [components_split path first rest split, filterMap_trimEnd]

theorem components_rooted (kept : trimEnd rest = [])
    (rooted : (first == [] && !rest.isEmpty) = true) : path.components = [.root] := by
  simp only [Bool.and_eq_true, beq_iff_eq, Bool.not_eq_true'] at rooted
  obtain ⟨rfl, more⟩ := rooted
  have filled := isEmpty_of_segments split
  rw [more, Bool.and_false] at filled
  rw [components_kept split, kept, leading?, filled]
  rfl

theorem trimmed_alone (kept : trimEnd rest = []) :
    path.trimmed = if first == [] && !rest.isEmpty then ⟨[Byte.slash]⟩ else ⟨first⟩ := by
  simp only [trimmed, split, kept]

theorem trimmed_kept (kept : trimEnd rest ≠ []) :
    path.trimmed = ofSegments (first :: trimEnd rest) := by
  obtain ⟨second, more, same⟩ := List.exists_cons_of_ne_nil kept
  simp only [trimmed, split, same]

theorem segments_trimmed (kept : trimEnd rest ≠ []) : path.trimmed.segments = first :: trimEnd rest := by
  rw [trimmed_kept split kept]
  exact segments_ofSegments _ (List.cons_ne_nil _ _) (kept_unslashed split)

end Trimmed

theorem components_trimmed (path : Path) : path.trimmed.components = path.components := by
  obtain ⟨first, rest, split⟩ := segments_cons path
  have size := isEmpty_of_segments split
  have parts := kept_unslashed split
  by_cases kept : trimEnd rest = []
  next =>
    rw [trimmed_alone split kept]
    split
    next rooted =>
      rw [components_rooted split kept rooted]
      rfl
    next single =>
      have alone : (⟨first⟩ : Path) = ofSegments [first] := by simp [ofSegments, List.intercalate]
      rw [components_kept split, alone, kept]
      apply components_ofSegments
      next => rwa [kept] at parts
      next =>
        rw [ofSegments_isEmpty, size]
        cases first <;> simp_all
  next =>
    obtain ⟨second, member⟩ := List.exists_mem_of_ne_nil _ kept
    rw [components_kept split, trimmed_kept split kept]
    apply components_ofSegments _ _ _ parts
    rw [ofSegments_isEmpty, isEmpty_of_kept split member,
      List.isEmpty_eq_false_iff.mpr kept, Bool.and_false]

-- The path in front of the last segment that is kept.
theorem parent_of_kept {path parent : Path} {first last : Bytes} {front : List Bytes}
    (kept : path.trimmed.segments = first :: (front ++ [last])) (found : path.parent? = some parent) :
    (first = [] ∧ front = [] ∧ parent = ⟨[Byte.slash]⟩) ∨
      (first.isEmpty && front.isEmpty) = false ∧ parent = (ofSegments (first :: front)).trimmed := by
  unfold parent? at found
  split at found
  next => cases found
  next =>
    rw [kept] at found
    cases front with
    | nil =>
      cases first with
      | nil => exact .inl ⟨rfl, rfl, (Option.some.inj found).symm⟩
      | cons b first => exact .inr ⟨rfl, (Option.some.inj found).symm⟩
    | cons second more =>
      have cut : (first :: second :: (more ++ [last])).dropLast = first :: second :: more := by
        rw [← List.cons_append, ← List.cons_append, List.dropLast_concat]
      refine .inr ⟨by simp, ?_⟩
      obtain ⟨third, others, same⟩ := List.exists_cons_of_ne_nil (List.concat_ne_nil last more)
      rw [List.cons_append, same] at found
      rw [same] at cut
      cases first <;> exact (Option.some.inj found).symm.trans (by rw [cut])

theorem parent_of_alone {path parent : Path} {first : Bytes} {rest : List Bytes}
    (split : path.segments = first :: rest) (kept : trimEnd rest = [])
    (found : path.parent? = some parent) : parent = ⟨[]⟩ := by
  have trimmed := trimmed_alone split kept
  unfold parent? at found
  split at found
  next => cases found
  next proper =>
    split at trimmed
    next rooted => simp [components_rooted split kept rooted] at proper
    next =>
      have single : path.trimmed.segments = [first] := by
        rw [trimmed]
        exact splitSlashes_unslashed first (kept_unslashed split first List.mem_cons_self)
      rw [single] at found
      exact (Option.some.inj found).symm

theorem components_parent (path parent : Path) (found : path.parent? = some parent) :
    parent.components = path.components.dropLast := by
  obtain ⟨first, rest, split⟩ := segments_cons path
  have whole := components_kept split
  have parts := kept_unslashed split
  obtain ⟨_, _, _, ends⟩ := trimEnd_split rest
  rcases List.eq_nil_or_concat (trimEnd rest) with kept | ⟨front, last, kept⟩
  next =>
    rw [whole, kept, parent_of_alone split kept found]
    cases path.leading? first <;> rfl
  next =>
    rw [List.concat_eq_append] at kept
    have segments := segments_trimmed split (by simp [kept])
    have filled := isEmpty_of_kept split (kept ▸ List.mem_concat_self : last ∈ trimEnd rest)
    rw [kept] at whole parts segments
    obtain ⟨component, named⟩ : ∃ component, component? last = some component := by
      rw [← Option.ne_none_iff_exists', ne_eq, component_eq_none, ends front last kept]
      exact Bool.false_ne_true
    have shorter : path.components.dropLast =
        (path.leading? first).toList ++ front.filterMap component? := by
      rw [whole, List.filterMap_append, List.filterMap_cons_some named, ← List.append_assoc]
      exact List.dropLast_concat
    rw [shorter]
    rcases parent_of_kept segments found with ⟨rfl, rfl, rfl⟩ | ⟨some, rfl⟩
    next =>
      rw [leading?, filled]
      rfl
    next =>
      rw [components_trimmed]
      apply components_ofSegments
      next =>
        rw [← List.cons_append] at parts
        exact fun segment member => parts segment (List.mem_append_left _ member)
      next => rw [ofSegments_isEmpty, some, filled]

end Path

end CognitiveComplexity
