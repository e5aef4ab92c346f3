import CognitiveComplexity.Proofs.Bracket.Nesting

set_option autoImplicit false

namespace CognitiveComplexity

namespace Shape

theorem pairs_of_inner_opener (shape : Shape) (kinds : List Kind) (left right inner : Nat)
    (pair : shape.Pairs kinds left right) (after : left < inner) (before : inner < right)
    (opens : kinds[inner]? = some shape.opener) :
    ∃ partner, inner < partner ∧ partner < right ∧ shape.Pairs kinds inner partner := by
  obtain ⟨_, _, closes, level, never⟩ := (pairs_iff_height _ _ _ _).mp pair
  have outcome := waits_or_pairs shape kinds inner (right - inner) opens
  rw [show inner + 1 + (right - inner) = right + 1 by omega] at outcome
  rcases outcome with waits | ⟨partner, within, found⟩
  -- Behind the outer pair the height is below all that opened inside it.
  · have up := height_after_opener shape kinds inner opens
    have down := height_after_closer shape kinds right closes
    have inside := never inner after (by omega)
    have above := waits.above (right + 1) (by omega) (by omega)
    omega
  · have apart : partner ≠ right := by
      rintro rfl
      have same := pairs_left_unique shape kinds left inner partner pair found
      omega
    exact ⟨partner, found.ordered, by omega, found⟩

theorem pairs_after_outer_opener (shape : Shape) (kinds : List Kind) (left right inner opener : Nat)
    (pair : shape.Pairs kinds left right) (after : left < inner) (before : inner < right)
    (found : shape.Pairs kinds opener inner) : left < opener := by
  obtain ⟨_, opens, _, level, never⟩ := (pairs_iff_height _ _ _ _).mp pair
  obtain ⟨_, _, _, innerLevel, innerNever⟩ := (pairs_iff_height _ _ _ _).mp found
  rcases lt_trichotomy opener left with early | same | late
  · have atLeft := innerNever left early (by omega)
    have up := height_after_opener shape kinds left opens
    have inside := never inner after (by omega)
    omega
  · rw [same] at found
    have unique := pairs_right_unique shape kinds left inner right found pair
    omega
  · exact late

theorem pairs_disjoint_or_nested (shape : Shape) (kinds : List Kind) (left right left' right' : Nat)
    (one : shape.Pairs kinds left right) (other : shape.Pairs kinds left' right') :
    (left = left' ∧ right = right') ∨ right < left' ∨ right' < left ∨
      (left < left' ∧ right' < right) ∨ (left' < left ∧ right < right') := by
  -- The later opening bracket is behind the earlier pair or inside it.
  have later (first last first' last' : Nat) (outer : shape.Pairs kinds first last)
      (inner : shape.Pairs kinds first' last') (ordered : first < first') :
      last < first' ∨ last' < last := by
    rcases lt_trichotomy last first' with apart | same | inside
    · exact .inl apart
    · have closes := outer.closes
      rw [same, inner.opens] at closes
      exact (opener_ne_closer shape shape (Option.some.inj closes)).elim
    · obtain ⟨partner, _, within, found⟩ :=
        pairs_of_inner_opener shape kinds first last first' outer ordered inside inner.opens
      rw [pairs_right_unique shape kinds first' last' partner inner found]
      exact .inr within
  rcases lt_trichotomy left left' with early | same | late
  · rcases later left right left' right' one other early with apart | inside
    · exact .inr (.inl apart)
    · exact .inr (.inr (.inr (.inl ⟨early, inside⟩)))
  · rw [← same] at other
    exact .inl ⟨same, pairs_right_unique shape kinds left right right' one other⟩
  · rcases later left' right' left right other one late with apart | inside
    · exact .inr (.inr (.inl apart))
    · exact .inr (.inr (.inr (.inr ⟨late, inside⟩)))

end Shape

theorem curly_pairs_of_waits (kinds : List Kind) (position opener : Nat)
    (waits : Shape.curly.Waits kinds position opener)
    (closes : kinds[position]? = some .closeCurly) :
    ∃ partner, Shape.curly.Pairs kinds partner position := by
  have within := (List.getElem?_eq_some_iff.mp closes).1
  have curlies := (Nesting.ofKinds_take_correct kinds position (by omega)).curlies
  have member := (Shape.open_mem_iff _ _ _ opener _ curlies).mpr waits
  cases stack : (Nesting.ofKinds (kinds.take position)).curlies with
  | nil =>
    rw [stack] at member
    cases member
  | cons top outer =>
    rw [stack] at curlies
    exact ⟨top, (Shape.open_pairs_iff _ _ _ top _ curlies closes).mpr rfl⟩

theorem curly_pairs_of_inner_closer (kinds : List Kind) (left right inner : Nat)
    (pair : Shape.curly.Pairs kinds left right) (after : left < inner) (before : inner < right)
    (closes : kinds[inner]? = some .closeCurly) :
    ∃ partner, left < partner ∧ partner < inner ∧ Shape.curly.Pairs kinds partner inner := by
  have waits := (Shape.waits_iff_unpaired .curly kinds inner left).mpr ⟨after, pair.opens, by
    intro early within found
    have same := Shape.pairs_right_unique .curly kinds left early right found pair
    omega⟩
  obtain ⟨partner, found⟩ := curly_pairs_of_waits kinds inner left waits closes
  exact ⟨partner, Shape.pairs_after_outer_opener .curly kinds left right inner partner pair after
    before found, found.ordered, found⟩

end CognitiveComplexity
