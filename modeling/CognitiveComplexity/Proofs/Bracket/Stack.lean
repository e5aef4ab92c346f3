import CognitiveComplexity.Proofs.Bracket.Balanced
import Mathlib.Data.Set.Card

set_option autoImplicit false

namespace CognitiveComplexity

namespace Shape

/-- A stack holds the brackets that wait at a position, innermost first: nothing is left open behind
the top, and the rest of the stack was the stack before it. -/
def Open (shape : Shape) (kinds : List Kind) : Nat → List Nat → Prop
  | position, [] => ∀ earlier, earlier ≤ position →
      shape.height kinds position ≤ shape.height kinds earlier
  | position, top :: outer => shape.Waits kinds position top ∧
      shape.height kinds position = shape.height kinds (top + 1) ∧ Open shape kinds top outer

theorem open_start (shape : Shape) (kinds : List Kind) : shape.Open kinds 0 [] := by
  intro earlier within
  rw [Nat.le_zero.mp within]

theorem open_extends (shape : Shape) (kinds : List Kind) (position later : Nat) (stack : List Nat)
    (holds : shape.Open kinds position stack) (after : position ≤ later)
    (level : shape.height kinds later = shape.height kinds position)
    (never : ∀ between, position ≤ between → between ≤ later →
      shape.height kinds position ≤ shape.height kinds between) :
    shape.Open kinds later stack := by
  -- The stack only knows heights behind its top, and those the stretch keeps.
  cases stack with
  | nil =>
    intro earlier within
    by_cases inside : earlier ≤ position
    · have low := holds earlier inside
      omega
    · have low := never earlier (by omega) within
      omega
  | cons top outer =>
    obtain ⟨waits, reached, rest⟩ := holds
    have before := waits.before
    refine ⟨⟨by omega, waits.opens, ?_⟩, by omega, rest⟩
    intro between behind upTo
    by_cases inside : between ≤ position
    · exact waits.above between behind inside
    · have low := never between (by omega) upTo
      omega

theorem open_push (shape : Shape) (kinds : List Kind) (position : Nat) (stack : List Nat)
    (holds : shape.Open kinds position stack) (opens : kinds[position]? = some shape.opener) :
    shape.Open kinds (position + 1) (position :: stack) :=
  ⟨waits_first shape kinds position opens, rfl, holds⟩

theorem open_other (shape : Shape) (kinds : List Kind) (position : Nat) (stack : List Nat)
    (kind : Kind) (holds : shape.Open kinds position stack) (found : kinds[position]? = some kind)
    (noOpener : kind ≠ shape.opener) (noCloser : kind ≠ shape.closer) :
    shape.Open kinds (position + 1) stack := by
  have same := height_succ shape kinds position kind found
  rw [rise_other shape kind noOpener noCloser, add_zero] at same
  refine open_extends shape kinds position (position + 1) stack holds (by omega) same ?_
  intro between behind upTo
  rcases (by omega : between = position ∨ between = position + 1) with first | last
  · rw [first]
  · rw [last, same]

theorem open_unmatched (shape : Shape) (kinds : List Kind) (position : Nat)
    (holds : shape.Open kinds position []) (closes : kinds[position]? = some shape.closer) :
    shape.Open kinds (position + 1) [] := by
  have down := height_after_closer shape kinds position closes
  intro earlier within
  by_cases last : earlier = position + 1
  · rw [last]
  · have low := holds earlier (by omega)
    omega

theorem open_pop (shape : Shape) (kinds : List Kind) (position top : Nat) (outer : List Nat)
    (holds : shape.Open kinds position (top :: outer))
    (closes : kinds[position]? = some shape.closer) :
    shape.Open kinds (position + 1) outer := by
  obtain ⟨waits, level, rest⟩ := holds
  have before := waits.before
  have up := height_after_opener shape kinds top waits.opens
  have down := height_after_closer shape kinds position closes
  -- From the top to behind this bracket is a balanced stretch, which leaves the outer stack alone.
  refine open_extends shape kinds top (position + 1) outer rest (by omega) (by omega) ?_
  intro between behind upTo
  rcases (by omega : between = top ∨ between = position + 1 ∨
      (top < between ∧ between ≤ position)) with first | last | ⟨inside, within⟩
  · rw [first]
  · rw [last]
    omega
  · have above := waits.above between inside within
    omega

theorem open_mem_iff (shape : Shape) (kinds : List Kind) (position opener : Nat) (stack : List Nat)
    (holds : shape.Open kinds position stack) :
    opener ∈ stack ↔ shape.Waits kinds position opener := by
  induction stack generalizing position with
  | nil =>
    constructor
    · intro member
      cases member
    · intro waits
      have before := waits.before
      have low := holds opener (by omega)
      have up := height_after_opener shape kinds opener waits.opens
      have above := waits.above position before (le_refl _)
      omega
  | cons top outer ih =>
    obtain ⟨waits, level, rest⟩ := holds
    have up := height_after_opener shape kinds top waits.opens
    have topBefore := waits.before
    rw [List.mem_cons, ih top rest]
    constructor
    · rintro (isTop | outerWaits)
      · rw [isTop]
        exact waits
      · have before := outerWaits.before
        refine ⟨by omega, outerWaits.opens, ?_⟩
        intro later behind upTo
        by_cases inside : later ≤ top
        · exact outerWaits.above later behind inside
        · have atTop := outerWaits.above top before (le_refl _)
          have above := waits.above later (by omega) upTo
          omega
    · intro openerWaits
      have before := openerWaits.before
      rcases lt_trichotomy opener top with earlier | same | later
      · exact .inr (waits_earlier shape kinds top position opener openerWaits earlier (by omega))
      · exact .inl same
      · -- A bracket behind the top would have to close again before the position.
        have openerUp := height_after_opener shape kinds opener openerWaits.opens
        have atOpener := waits.above opener later (by omega)
        have atPosition := openerWaits.above position before (le_refl _)
        omega

theorem open_nodup (shape : Shape) (kinds : List Kind) (position : Nat) (stack : List Nat)
    (holds : shape.Open kinds position stack) : stack.Nodup := by
  induction stack generalizing position with
  | nil => exact List.nodup_nil
  | cons top outer ih =>
    obtain ⟨_, _, rest⟩ := holds
    refine List.nodup_cons.mpr ⟨?_, ih top rest⟩
    intro member
    have before := ((open_mem_iff shape kinds top top outer rest).mp member).before
    omega

theorem open_pairs_iff (shape : Shape) (kinds : List Kind) (position opener : Nat)
    (stack : List Nat) (holds : shape.Open kinds position stack)
    (closes : kinds[position]? = some shape.closer) :
    shape.Pairs kinds opener position ↔ stack.head? = some opener := by
  cases stack with
  | nil =>
    simp only [List.head?_nil, reduceCtorEq, iff_false]
    intro pair
    obtain ⟨ordered, opens, _, level, _⟩ := (pairs_iff_height _ _ _ _).mp pair
    have low := holds opener (by omega)
    have up := height_after_opener shape kinds opener opens
    omega
  | cons top outer =>
    obtain ⟨waits, level, _⟩ := holds
    have topPairs : shape.Pairs kinds top position :=
      (pairs_iff_height _ _ _ _).mpr ⟨waits.before, waits.opens, closes, level, waits.above⟩
    simp only [List.head?_cons, Option.some.injEq]
    constructor
    · intro pair
      exact pairs_left_unique shape kinds top opener position topPairs pair
    · intro same
      rw [← same]
      exact topPairs

theorem opener_injective (first second : Shape) (same : first.opener = second.opener) :
    first = second := by
  cases first <;> cases second <;> first | rfl | cases same

theorem closer_injective (first second : Shape) (same : first.closer = second.closer) :
    first = second := by
  cases first <;> cases second <;> first | rfl | cases same

end Shape

def Linked (kinds : List Kind) (one other : Nat) : Prop :=
  ∃ shape : Shape, shape.Pairs kinds one other ∨ shape.Pairs kinds other one

theorem linked_symm (kinds : List Kind) (one other : Nat) (linked : Linked kinds one other) :
    Linked kinds other one := by
  obtain ⟨shape, pair⟩ := linked
  exact ⟨shape, pair.symm⟩

theorem linked_unique (kinds : List Kind) (one first second : Nat)
    (left : Linked kinds one first) (right : Linked kinds one second) : first = second := by
  -- A position holds one kind, so both pairs have one shape and one direction.
  have clash (opening closing : Shape) (opens : kinds[one]? = some opening.opener)
      (closes : kinds[one]? = some closing.closer) : False :=
    Shape.opener_ne_closer opening closing (Option.some.inj (opens.symm.trans closes))
  obtain ⟨shape, pair | pair⟩ := left <;> obtain ⟨shape', pair' | pair'⟩ := right
  · have same := Shape.opener_injective _ _ (Option.some.inj (pair.opens.symm.trans pair'.opens))
    rw [← same] at pair'
    exact Shape.pairs_right_unique shape kinds one first second pair pair'
  · exact (clash shape shape' pair.opens pair'.closes).elim
  · exact (clash shape' shape pair'.opens pair.closes).elim
  · have same := Shape.closer_injective _ _ (Option.some.inj (pair.closes.symm.trans pair'.closes))
    rw [← same] at pair'
    exact Shape.pairs_left_unique shape kinds first second one pair pair'

def enclosing (kinds : List Kind) (position : Nat) : Set Nat :=
  {opener | opener < position ∧ Shape.curly.Waits kinds (position + 1) opener}

theorem ncard_eq_length (members : Set Nat) (items : List Nat) (distinct : items.Nodup)
    (same : ∀ item, item ∈ members ↔ item ∈ items) : members.ncard = items.length := by
  have listed : members = (items.toFinset : Set Nat) := by
    ext item
    rw [List.coe_toFinset]
    exact same item
  rw [listed, Set.ncard_coe_finset, List.toFinset_card_of_nodup distinct]

theorem enclosing_card_other (kinds : List Kind) (position : Nat) (stack : List Nat)
    (holds : Shape.curly.Open kinds (position + 1) stack)
    (noOpener : kinds[position]? ≠ some .openCurly) :
    (enclosing kinds position).ncard = stack.length := by
  refine ncard_eq_length _ stack (Shape.open_nodup _ _ _ _ holds) ?_
  intro opener
  rw [Shape.open_mem_iff Shape.curly kinds (position + 1) opener stack holds]
  constructor
  · exact fun inside => inside.2
  · intro waits
    have before := waits.before
    -- The token itself opens nothing, so every bracket on the stack is before it.
    have apart : opener ≠ position := by
      intro here
      exact noOpener (here ▸ waits.opens)
    exact ⟨by omega, waits⟩

theorem enclosing_card_opener (kinds : List Kind) (position : Nat) (stack : List Nat)
    (holds : Shape.curly.Open kinds position stack)
    (opens : kinds[position]? = some .openCurly) :
    (enclosing kinds position).ncard = stack.length := by
  have pushed := Shape.open_push Shape.curly kinds position stack holds opens
  refine ncard_eq_length _ stack (Shape.open_nodup _ _ _ _ holds) ?_
  intro opener
  have member := Shape.open_mem_iff Shape.curly kinds (position + 1) opener _ pushed
  constructor
  · rintro ⟨before, waits⟩
    rcases List.mem_cons.mp (member.mpr waits) with here | inside
    · omega
    · exact inside
  · intro inside
    have waits := (Shape.open_mem_iff Shape.curly kinds position opener stack holds).mp inside
    exact ⟨waits.before, member.mp (List.mem_cons_of_mem _ inside)⟩

theorem enclosing_pair (kinds : List Kind) (left right : Nat)
    (pair : Shape.curly.Pairs kinds left right) :
    enclosing kinds left = enclosing kinds right := by
  obtain ⟨ordered, opens, closes, level, never⟩ := (Shape.pairs_iff_height _ _ _ _).mp pair
  have up := Shape.height_after_opener Shape.curly kinds left opens
  have down := Shape.height_after_closer Shape.curly kinds right closes
  ext opener
  constructor
  · rintro ⟨before, waits⟩
    have atLeft := waits.above left before (by omega)
    refine ⟨by omega, by omega, waits.opens, ?_⟩
    intro later behind upTo
    rcases (by omega : later ≤ left ∨ later = right + 1 ∨ (left < later ∧ later ≤ right)) with
      early | last | ⟨inside, within⟩
    · exact waits.above later behind (by omega)
    · rw [last]
      omega
    · have above := never later inside within
      omega
  · rintro ⟨before, waits⟩
    have last := waits.above (right + 1) (by omega) (by omega)
    have openerUp := Shape.height_after_opener Shape.curly kinds opener waits.opens
    -- Behind the pair the height is that before it, so no bracket of the pair or in it still waits.
    rcases lt_trichotomy opener left with early | here | inside
    · exact ⟨early, Shape.waits_earlier Shape.curly kinds (left + 1) (right + 1) opener waits
        (by omega) (by omega)⟩
    · rw [here] at last
      omega
    · have above := never opener inside (by omega)
      omega

theorem enclosing_inside (kinds : List Kind) (left right inner : Nat)
    (pair : Shape.curly.Pairs kinds left right) (after : left < inner) (before : inner < right) :
    insert left (enclosing kinds left) ⊆ enclosing kinds inner := by
  obtain ⟨_, opens, _, _, never⟩ := (Shape.pairs_iff_height _ _ _ _).mp pair
  have up := Shape.height_after_opener Shape.curly kinds left opens
  rintro opener (here | ⟨outside, waits⟩)
  · rw [here]
    exact ⟨after, by omega, opens, fun later behind upTo => never later behind (by omega)⟩
  · have atLeft := waits.above left outside (by omega)
    refine ⟨by omega, by omega, waits.opens, ?_⟩
    intro later behind upTo
    by_cases early : later ≤ left
    · exact waits.above later behind (by omega)
    · have above := never later (by omega) (by omega)
      omega

theorem enclosing_finite (kinds : List Kind) (position : Nat) :
    (enclosing kinds position).Finite :=
  (Set.finite_Iio position).subset fun _ member => member.1

theorem enclosing_card_inside (kinds : List Kind) (left right inner : Nat)
    (pair : Shape.curly.Pairs kinds left right) (after : left < inner) (before : inner < right) :
    (enclosing kinds left).ncard + 1 ≤ (enclosing kinds inner).ncard := by
  have absent : left ∉ enclosing kinds left := fun member => lt_irrefl left member.1
  rw [← Set.ncard_insert_of_notMem absent (enclosing_finite kinds left)]
  exact Set.ncard_le_ncard (enclosing_inside kinds left right inner pair after before)
    (enclosing_finite kinds inner)

end CognitiveComplexity
