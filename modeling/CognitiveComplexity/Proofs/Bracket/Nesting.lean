import CognitiveComplexity.Proofs.Bracket.Stack

set_option autoImplicit false

namespace CognitiveComplexity

structure MarksCorrect (kinds : List Kind) (position : Nat) (marks : Array Mark) : Prop where
  size : marks.size = position
  partner : ∀ (index : Nat) (mark : Mark), marks[index]? = some mark →
    ∀ other, mark.partner = some other ↔ other < position ∧ Linked kinds index other
  level : ∀ (index : Nat) (mark : Mark), marks[index]? = some mark →
    mark.level = (enclosing kinds index).ncard

theorem marks_push_correct (kinds : List Kind) (position level : Nat) (marks : Array Mark)
    (correct : MarksCorrect kinds position marks)
    (unlinked : ∀ index, index ≤ position → ¬ Linked kinds index position)
    (levelCorrect : level = (enclosing kinds position).ncard) :
    MarksCorrect kinds (position + 1) (marks.push ⟨level, none⟩) := by
  have size := correct.size
  refine ⟨by simp [size], ?_, ?_⟩
  · intro index mark found other
    rw [Array.getElem?_push] at found
    split at found
    · next last =>
      cases found
      rw [last, size]
      simp only [reduceCtorEq, false_iff, not_and]
      intro within linked
      exact unlinked other (by omega) (linked_symm _ _ _ linked)
    · next earlier =>
      rw [correct.partner index mark found other]
      have bound := (Array.getElem?_eq_some_iff.mp found).1
      constructor
      · rintro ⟨within, linked⟩
        exact ⟨by omega, linked⟩
      · rintro ⟨within, linked⟩
        have apart : other ≠ position := by
          intro here
          exact unlinked index (by omega) (here ▸ linked)
        exact ⟨by omega, linked⟩
  · intro index mark found
    rw [Array.getElem?_push] at found
    split at found
    · next last =>
      cases found
      rw [last, size]
      exact levelCorrect
    · exact correct.level index mark found

theorem marks_close_correct (kinds : List Kind) (position opener level : Nat) (marks : Array Mark)
    (correct : MarksCorrect kinds position marks) (before : opener < position)
    (linked : Linked kinds opener position)
    (levelCorrect : level = (enclosing kinds position).ncard) :
    MarksCorrect kinds (position + 1) (Nesting.closePair marks opener level) := by
  have size := correct.size
  have back := linked_symm _ _ _ linked
  refine ⟨by simp [Nesting.closePair, size], ?_, ?_⟩
  · intro index mark found other
    simp only [Nesting.closePair, Array.getElem?_push, Array.size_modify] at found
    split at found
    · next last =>
      cases found
      rw [last, size, Option.some.injEq]
      constructor
      · intro same
        rw [← same]
        exact ⟨by omega, back⟩
      · rintro ⟨_, otherLinked⟩
        exact linked_unique kinds position opener other back otherLinked
    · next earlier =>
      rw [Array.getElem?_modify] at found
      split at found
      · next isOpener =>
        -- The opening bracket had no partner yet and gets this one.
        obtain ⟨_, _, patched⟩ := Option.map_eq_some_iff.mp found
        rw [← patched, ← isOpener, size, Option.some.injEq]
        constructor
        · intro same
          rw [← same]
          exact ⟨by omega, linked⟩
        · rintro ⟨_, otherLinked⟩
          exact linked_unique kinds opener position other linked otherLinked
      · next noOpener =>
        rw [correct.partner index mark found other]
        constructor
        · rintro ⟨within, otherLinked⟩
          exact ⟨by omega, otherLinked⟩
        · rintro ⟨within, otherLinked⟩
          have apart : other ≠ position := by
            intro here
            rw [here] at otherLinked
            exact noOpener (linked_unique kinds position opener index back
              (linked_symm _ _ _ otherLinked))
          exact ⟨by omega, otherLinked⟩
  · intro index mark found
    simp only [Nesting.closePair, Array.getElem?_push, Array.size_modify] at found
    split at found
    · next last =>
      cases found
      rw [last, size]
      exact levelCorrect
    · rw [Array.getElem?_modify] at found
      split at found
      · obtain ⟨earlier, before, patched⟩ := Option.map_eq_some_iff.mp found
        rw [← patched]
        exact correct.level index earlier before
      · exact correct.level index mark found

namespace Nesting

/-- The state of nesting before a position: the depth is the size of the curly stack, the stacks
hold what waits, and the marks are right. -/
structure Correct (kinds : List Kind) (position : Nat) (nesting : Nesting) : Prop where
  depth : nesting.depth = nesting.curlies.length
  curlies : Shape.curly.Open kinds position nesting.curlies
  parens : Shape.paren.Open kinds position nesting.parens
  marks : MarksCorrect kinds position nesting.marks

theorem empty_correct (kinds : List Kind) : Correct kinds 0 empty := by
  refine ⟨rfl, Shape.open_start _ kinds, Shape.open_start _ kinds, rfl, ?_, ?_⟩
  all_goals
    intro index mark found
    simp [empty] at found

theorem unlinked_of_unpaired (kinds : List Kind) (position : Nat)
    (unpaired : ∀ (shape : Shape) (index : Nat), ¬ shape.Pairs kinds index position) :
    ∀ index, index ≤ position → ¬ Linked kinds index position := by
  rintro index within ⟨shape, pair | pair⟩
  · exact unpaired shape index pair
  · have ordered := pair.ordered
    omega

theorem unpaired_of_no_closer (kinds : List Kind) (position : Nat) (kind : Kind)
    (found : kinds[position]? = some kind) (noCloser : ∀ shape : Shape, kind ≠ shape.closer) :
    ∀ (shape : Shape) (index : Nat), ¬ shape.Pairs kinds index position := by
  intro shape index pair
  exact noCloser shape (Option.some.inj (found.symm.trans pair.closes))

theorem unpaired_of_empty (kinds : List Kind) (position : Nat) (shape : Shape)
    (holds : shape.Open kinds position []) (closes : kinds[position]? = some shape.closer) :
    ∀ (other : Shape) (index : Nat), ¬ other.Pairs kinds index position := by
  intro other index pair
  -- A position holds a bracket of one shape only.
  have same := Shape.closer_injective _ _ (Option.some.inj (closes.symm.trans pair.closes))
  rw [← same] at pair
  have onTop := (Shape.open_pairs_iff shape kinds position index [] holds closes).mp pair
  cases onTop

variable {kinds : List Kind} {position : Nat} {nesting : Nesting}

theorem plain_correct (kind : Kind) (correct : Correct kinds position nesting)
    (found : kinds[position]? = some kind) (noBracket : kind.isBracket = false) :
    Correct kinds (position + 1) nesting.plain := by
  obtain ⟨depth, curlies, parens, marks⟩ := correct
  have stays (shape : Shape) (stack : List Nat) (holds : shape.Open kinds position stack) :=
    Shape.open_other shape kinds position stack kind holds found (shape.ne_opener kind noBracket)
      (shape.ne_closer kind noBracket)
  have level := enclosing_card_other kinds position _ (stays .curly _ curlies) (by
    rw [found]
    exact fun same => Shape.ne_opener .curly kind noBracket (Option.some.inj same))
  have unlinked := unlinked_of_unpaired kinds position
    (unpaired_of_no_closer kinds position kind found (fun shape => shape.ne_closer kind noBracket))
  exact ⟨depth, stays .curly _ curlies, stays .paren _ parens,
    marks_push_correct kinds position _ _ marks unlinked (depth.trans level.symm)⟩

theorem openCurly_correct (correct : Correct kinds position nesting)
    (found : kinds[position]? = some .openCurly) :
    Correct kinds (position + 1) nesting.openCurly := by
  obtain ⟨depth, curlies, parens, marks⟩ := correct
  have unlinked := unlinked_of_unpaired kinds position
    (unpaired_of_no_closer kinds position .openCurly found (by rintro (_ | _) <;> decide))
  have level := enclosing_card_opener kinds position _ curlies found
  refine ⟨by simp [openCurly, depth], ?_, ?_, ?_⟩
  · have pushed := Shape.open_push .curly kinds position _ curlies found
    rw [← marks.size] at pushed ⊢
    exact pushed
  · exact Shape.open_other .paren kinds position _ _ parens found (by decide) (by decide)
  · exact marks_push_correct kinds position _ _ marks unlinked (depth.trans level.symm)

theorem openParen_correct (correct : Correct kinds position nesting)
    (found : kinds[position]? = some .openParen) :
    Correct kinds (position + 1) nesting.openParen := by
  obtain ⟨depth, curlies, parens, marks⟩ := correct
  have unlinked := unlinked_of_unpaired kinds position
    (unpaired_of_no_closer kinds position .openParen found (by rintro (_ | _) <;> decide))
  have stays := Shape.open_other .curly kinds position _ _ curlies found (by decide) (by decide)
  have level := enclosing_card_other kinds position _ stays (by rw [found]; decide)
  refine ⟨depth, stays, ?_, ?_⟩
  · have pushed := Shape.open_push .paren kinds position _ parens found
    rw [← marks.size] at pushed ⊢
    exact pushed
  · exact marks_push_correct kinds position _ _ marks unlinked (depth.trans level.symm)

theorem closeCurly_correct (correct : Correct kinds position nesting)
    (found : kinds[position]? = some .closeCurly) :
    Correct kinds (position + 1) nesting.closeCurly := by
  obtain ⟨depth, curlies, parens, marks⟩ := correct
  have parens := Shape.open_other .paren kinds position _ _ parens found (by decide) (by decide)
  have noOpener : kinds[position]? ≠ some .openCurly := by rw [found]; decide
  rcases nesting with ⟨count, _ | ⟨top, outer⟩, stack, array⟩
  -- Nothing to close: the stack stays empty and the depth stays zero.
  · have still := Shape.open_unmatched .curly kinds position curlies found
    have level := enclosing_card_other kinds position _ still noOpener
    have unlinked := unlinked_of_unpaired kinds position
      (unpaired_of_empty kinds position .curly curlies found)
    exact ⟨depth, still, parens,
      marks_push_correct kinds position _ _ marks unlinked (depth.trans level.symm)⟩
  · have popped := Shape.open_pop .curly kinds position top outer curlies found
    have level := enclosing_card_other kinds position _ popped noOpener
    have pair := (Shape.open_pairs_iff .curly kinds position top _ curlies found).mpr rfl
    have less : count - 1 = outer.length := Nat.sub_eq_of_eq_add depth
    exact ⟨less, popped, parens, marks_close_correct kinds position top _ _ marks pair.ordered
      ⟨.curly, .inl pair⟩ (less.trans level.symm)⟩

theorem closeParen_correct (correct : Correct kinds position nesting)
    (found : kinds[position]? = some .closeParen) :
    Correct kinds (position + 1) nesting.closeParen := by
  obtain ⟨depth, curlies, parens, marks⟩ := correct
  have curlies := Shape.open_other .curly kinds position _ _ curlies found (by decide) (by decide)
  have level := enclosing_card_other kinds position _ curlies (by rw [found]; decide)
  rcases nesting with ⟨count, stack, _ | ⟨top, outer⟩, array⟩
  · have still := Shape.open_unmatched .paren kinds position parens found
    have unlinked := unlinked_of_unpaired kinds position
      (unpaired_of_empty kinds position .paren parens found)
    exact ⟨depth, curlies, still,
      marks_push_correct kinds position _ _ marks unlinked (depth.trans level.symm)⟩
  · have popped := Shape.open_pop .paren kinds position top outer parens found
    have pair := (Shape.open_pairs_iff .paren kinds position top _ parens found).mpr rfl
    exact ⟨depth, curlies, popped, marks_close_correct kinds position top _ _ marks pair.ordered
      ⟨.paren, .inl pair⟩ (depth.trans level.symm)⟩

theorem step_correct (kind : Kind) (correct : Correct kinds position nesting)
    (found : kinds[position]? = some kind) :
    Correct kinds (position + 1) (nesting.step kind) := by
  cases kind with
  | openCurly => exact openCurly_correct correct found
  | closeCurly => exact closeCurly_correct correct found
  | openParen => exact openParen_correct correct found
  | closeParen => exact closeParen_correct correct found
  | _ => exact plain_correct _ correct found rfl

theorem ofKinds_take_correct (kinds : List Kind) (position : Nat)
    (within : position ≤ kinds.length) :
    Correct kinds position (ofKinds (kinds.take position)) := by
  induction position with
  | zero => exact empty_correct kinds
  | succ position ih =>
    have found : kinds[position]? = some kinds[position] := List.getElem?_eq_getElem within
    have stepped : ofKinds (kinds.take (position + 1)) =
        (ofKinds (kinds.take position)).step kinds[position] := by
      simp only [ofKinds, List.take_add_one, found, Option.toList_some, List.foldl_append,
        List.foldl_cons, List.foldl_nil]
    rw [stepped]
    exact step_correct _ (ih (by omega)) found

theorem ofKinds_correct (kinds : List Kind) : Correct kinds kinds.length (ofKinds kinds) := by
  have whole := ofKinds_take_correct kinds kinds.length (le_refl _)
  rwa [List.take_length] at whole

theorem enclosing_card_unmatched (kinds : List Kind) (position : Nat)
    (found : kinds[position]? = some .closeCurly)
    (unpaired : ∀ left, ¬ Shape.curly.Pairs kinds left position) :
    (enclosing kinds position).ncard = 0 := by
  have within := (List.getElem?_eq_some_iff.mp found).1
  have curlies := (ofKinds_take_correct kinds position (by omega)).curlies
  -- With something on the stack the bracket would have its top for a partner.
  cases stack : (ofKinds (kinds.take position)).curlies with
  | nil =>
    rw [stack] at curlies
    exact enclosing_card_other kinds position []
      (Shape.open_unmatched Shape.curly kinds position curlies found) (by rw [found]; decide)
  | cons top outer =>
    rw [stack] at curlies
    have pair := (Shape.open_pairs_iff Shape.curly kinds position top _ curlies found).mpr rfl
    exact absurd pair (unpaired top)

end Nesting

end CognitiveComplexity
