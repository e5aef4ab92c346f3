import CognitiveComplexity.Token.Nesting
import Mathlib.Combinatorics.Enumerative.DyckWord

set_option autoImplicit false

/-!
Balanced brackets of one shape inside a list of kinds, and the pairs they form. Everything is read
off the height, the number of brackets opened less the number closed so far.
-/

namespace CognitiveComplexity

def Kind.isBracket : Kind → Bool
  | .openCurly | .closeCurly | .openParen | .closeParen => true
  | _ => false

inductive Shape where
  | curly
  | paren
  deriving DecidableEq, Repr

namespace Shape

def opener : Shape → Kind
  | .curly => .openCurly
  | .paren => .openParen

def closer : Shape → Kind
  | .curly => .closeCurly
  | .paren => .closeParen

theorem opener_ne_closer (first second : Shape) : first.opener ≠ second.closer := by
  cases first <;> cases second <;> decide

theorem opener_isBracket (shape : Shape) : shape.opener.isBracket = true := by
  cases shape <;> rfl

theorem closer_isBracket (shape : Shape) : shape.closer.isBracket = true := by
  cases shape <;> rfl

theorem ne_opener (shape : Shape) (kind : Kind) (noBracket : kind.isBracket = false) :
    kind ≠ shape.opener := by
  intro same
  rw [same, opener_isBracket] at noBracket
  cases noBracket

theorem ne_closer (shape : Shape) (kind : Kind) (noBracket : kind.isBracket = false) :
    kind ≠ shape.closer := by
  intro same
  rw [same, closer_isBracket] at noBracket
  cases noBracket

def bracket? (shape : Shape) (kind : Kind) : Option DyckStep :=
  if kind = shape.opener then some .U else if kind = shape.closer then some .D else none

def brackets (shape : Shape) (kinds : List Kind) : List DyckStep := kinds.filterMap shape.bracket?

/-- The brackets of the shape form a balanced word, whatever stands between them. -/
def Balanced (shape : Shape) (kinds : List Kind) : Prop :=
  ∃ word : DyckWord, word.toList = shape.brackets kinds

def rise (shape : Shape) (kinds : List Kind) : Int :=
  ((shape.brackets kinds).count .U : Int) - (shape.brackets kinds).count .D

theorem rise_append (shape : Shape) (left right : List Kind) :
    shape.rise (left ++ right) = shape.rise left + shape.rise right := by
  simp only [rise, brackets, List.filterMap_append, List.count_append]
  omega

theorem rise_opener (shape : Shape) : shape.rise [shape.opener] = 1 := by
  cases shape <;> decide

theorem rise_closer (shape : Shape) : shape.rise [shape.closer] = -1 := by
  cases shape <;> decide

theorem rise_other (shape : Shape) (kind : Kind) (noOpener : kind ≠ shape.opener)
    (noCloser : kind ≠ shape.closer) : shape.rise [kind] = 0 := by
  simp [rise, brackets, bracket?, noOpener, noCloser]

-- A word is balanced when it ends on the height it starts on and never falls below it.
theorem balanced_iff_rise (shape : Shape) (kinds : List Kind) :
    shape.Balanced kinds ↔ shape.rise kinds = 0 ∧ ∀ size, 0 ≤ shape.rise (kinds.take size) := by
  constructor
  · rintro ⟨word, spelled⟩
    constructor
    · have equal := word.count_U_eq_count_D
      rw [spelled] at equal
      simp only [rise, equal, sub_self]
    · intro size
      have prior := word.count_D_le_count_U (shape.brackets (kinds.take size)).length
      have start : shape.brackets (kinds.take size) <+: shape.brackets kinds :=
        (List.take_prefix size kinds).filterMap _
      rw [spelled, ← List.prefix_iff_eq_take.mp start] at prior
      simp only [rise]
      omega
  · rintro ⟨level, never⟩
    have equal : (shape.brackets kinds).count .U = (shape.brackets kinds).count .D := by
      simp only [rise] at level
      omega
    refine ⟨⟨shape.brackets kinds, equal, ?_⟩, rfl⟩
    intro size
    -- A part of the word is the word of a part of the kinds.
    obtain ⟨left, start, spelled⟩ :=
      List.prefix_filterMap_iff.mp (List.take_prefix size (shape.brackets kinds))
    have above := never left.length
    rw [← List.prefix_iff_eq_take.mp start] at above
    rw [spelled]
    simp only [rise, brackets] at above
    omega

def height (shape : Shape) (kinds : List Kind) (position : Nat) : Int :=
  shape.rise (kinds.take position)

theorem height_succ (shape : Shape) (kinds : List Kind) (position : Nat) (kind : Kind)
    (found : kinds[position]? = some kind) :
    shape.height kinds (position + 1) = shape.height kinds position + shape.rise [kind] := by
  simp only [height, List.take_add_one, found, Option.toList_some, rise_append]

theorem height_after_opener (shape : Shape) (kinds : List Kind) (position : Nat)
    (found : kinds[position]? = some shape.opener) :
    shape.height kinds (position + 1) = shape.height kinds position + 1 := by
  rw [height_succ shape kinds position _ found, rise_opener]

theorem height_after_closer (shape : Shape) (kinds : List Kind) (position : Nat)
    (found : kinds[position]? = some shape.closer) :
    shape.height kinds (position + 1) = shape.height kinds position - 1 := by
  rw [height_succ shape kinds position _ found, rise_closer]
  omega

theorem height_le_succ (shape : Shape) (kinds : List Kind) (position : Nat)
    (noCloser : kinds[position]? ≠ some shape.closer) :
    shape.height kinds position ≤ shape.height kinds (position + 1) := by
  cases found : kinds[position]? with
  | none =>
    have ended : kinds.take (position + 1) = kinds.take position := by
      simp only [List.take_add_one, found, Option.toList_none, List.append_nil]
    simp only [height, ended, le_refl]
  | some kind =>
    rw [height_succ shape kinds position kind found]
    -- Only a closing bracket lowers the height, and there is none here.
    by_cases isOpener : kind = shape.opener
    · rw [isOpener, rise_opener]
      omega
    · have isOther : kind ≠ shape.closer := by
        intro isCloser
        exact noCloser (by rw [found, isCloser])
      rw [rise_other shape kind isOpener isOther]
      omega

def between (kinds : List Kind) (left right : Nat) : List Kind :=
  (kinds.take right).drop (left + 1)

/-- Two positions hold an opening and a closing bracket of the shape with a balanced word between
them. -/
structure Pairs (shape : Shape) (kinds : List Kind) (left right : Nat) : Prop where
  ordered : left < right
  opens : kinds[left]? = some shape.opener
  closes : kinds[right]? = some shape.closer
  inner : shape.Balanced (between kinds left right)

theorem take_between (kinds : List Kind) (left right size : Nat) :
    (between kinds left right).take size = between kinds left (min (left + 1 + size) right) := by
  simp only [between, List.take_drop, List.take_take]

theorem height_eq_rise_between (shape : Shape) (kinds : List Kind) (left right : Nat)
    (ordered : left < right) :
    shape.height kinds right =
      shape.height kinds (left + 1) + shape.rise (between kinds left right) := by
  have split := List.take_append_drop (left + 1) (kinds.take right)
  rw [List.take_take, Nat.min_eq_left ordered] at split
  rw [height, ← split, rise_append]
  rfl

theorem pairs_iff_height (shape : Shape) (kinds : List Kind) (left right : Nat) :
    shape.Pairs kinds left right ↔
      left < right ∧ kinds[left]? = some shape.opener ∧ kinds[right]? = some shape.closer ∧
        shape.height kinds right = shape.height kinds (left + 1) ∧
        ∀ position, left < position → position ≤ right →
          shape.height kinds (left + 1) ≤ shape.height kinds position := by
  constructor
  · rintro ⟨ordered, opens, closes, inner⟩
    obtain ⟨level, never⟩ := (balanced_iff_rise _ _).mp inner
    refine ⟨ordered, opens, closes, ?_, ?_⟩
    · rw [height_eq_rise_between shape kinds left right ordered, level]
      omega
    · intro position after before
      have above := never (position - (left + 1))
      rw [take_between, Nat.min_eq_left (by omega),
        show left + 1 + (position - (left + 1)) = position by omega] at above
      rw [height_eq_rise_between shape kinds left position after]
      omega
  · rintro ⟨ordered, opens, closes, level, never⟩
    refine ⟨ordered, opens, closes, (balanced_iff_rise _ _).mpr ⟨?_, ?_⟩⟩
    · rw [height_eq_rise_between shape kinds left right ordered] at level
      omega
    · intro size
      have above := never (min (left + 1 + size) right) (by omega) (by omega)
      rw [height_eq_rise_between shape kinds left (min (left + 1 + size) right) (by omega)] at above
      rw [take_between]
      omega

theorem pairs_left_unique (shape : Shape) (kinds : List Kind) (first second right : Nat)
    (one : shape.Pairs kinds first right) (other : shape.Pairs kinds second right) :
    first = second := by
  -- The later opening bracket would start below the word behind the earlier one.
  have apart (early late : Nat) (outer : shape.Pairs kinds early right)
      (inner : shape.Pairs kinds late right) : ¬ early < late := by
    intro before
    obtain ⟨_, _, _, outerLevel, never⟩ := (pairs_iff_height _ _ _ _).mp outer
    obtain ⟨ordered, opens, _, innerLevel, _⟩ := (pairs_iff_height _ _ _ _).mp inner
    have above := never late before (by omega)
    have up := height_after_opener shape kinds late opens
    omega
  have notBefore := apart first second one other
  have notAfter := apart second first other one
  omega

theorem pairs_right_unique (shape : Shape) (kinds : List Kind) (left first second : Nat)
    (one : shape.Pairs kinds left first) (other : shape.Pairs kinds left second) :
    first = second := by
  -- Behind its closing bracket the height is below the word of a longer pair.
  have apart (early late : Nat) (inner : shape.Pairs kinds left early)
      (outer : shape.Pairs kinds left late) : ¬ early < late := by
    intro before
    obtain ⟨ordered, _, closes, level, _⟩ := (pairs_iff_height _ _ _ _).mp inner
    obtain ⟨_, _, _, _, never⟩ := (pairs_iff_height _ _ _ _).mp outer
    have above := never (early + 1) (by omega) (by omega)
    have down := height_after_closer shape kinds early closes
    omega
  have notBefore := apart first second one other
  have notAfter := apart second first other one
  omega

/-- An opening bracket that is still open at a position: since it the height never fell below what
stands behind it. -/
structure Waits (shape : Shape) (kinds : List Kind) (position opener : Nat) : Prop where
  before : opener < position
  opens : kinds[opener]? = some shape.opener
  above : ∀ later, opener < later → later ≤ position →
    shape.height kinds (opener + 1) ≤ shape.height kinds later

theorem waits_earlier (shape : Shape) (kinds : List Kind) (earlier position opener : Nat)
    (waits : shape.Waits kinds position opener) (after : opener < earlier)
    (within : earlier ≤ position) : shape.Waits kinds earlier opener :=
  ⟨after, waits.opens, fun later behind upTo => waits.above later behind (by omega)⟩

theorem waits_first (shape : Shape) (kinds : List Kind) (opener : Nat)
    (opens : kinds[opener]? = some shape.opener) : shape.Waits kinds (opener + 1) opener := by
  refine ⟨by omega, opens, ?_⟩
  intro later behind upTo
  rw [show later = opener + 1 by omega]

theorem not_pairs_of_waits (shape : Shape) (kinds : List Kind) (position opener right : Nat)
    (waits : shape.Waits kinds position opener) (within : right < position) :
    ¬ shape.Pairs kinds opener right := by
  intro pair
  obtain ⟨ordered, _, closes, level, _⟩ := (pairs_iff_height _ _ _ _).mp pair
  have above := waits.above (right + 1) (by omega) (by omega)
  have down := height_after_closer shape kinds right closes
  omega

theorem waits_or_pairs (shape : Shape) (kinds : List Kind) (opener size : Nat)
    (opens : kinds[opener]? = some shape.opener) :
    shape.Waits kinds (opener + 1 + size) opener ∨
      ∃ right, right < opener + 1 + size ∧ shape.Pairs kinds opener right := by
  -- Position by position, until the height falls below what stands behind the bracket.
  induction size with
  | zero => exact .inl (waits_first shape kinds opener opens)
  | succ size ih =>
    rcases ih with waits | ⟨right, within, pair⟩
    · by_cases low : shape.height kinds (opener + 1) ≤ shape.height kinds (opener + 1 + size + 1)
      · refine .inl ⟨by omega, opens, ?_⟩
        intro later behind upTo
        by_cases last : later = opener + 1 + size + 1
        · rw [last]
          exact low
        · exact waits.above later behind (by omega)
      · -- The height just fell below, so a closing bracket stands here.
        have last := waits.above (opener + 1 + size) (by omega) (by omega)
        have closes : kinds[opener + 1 + size]? = some shape.closer := by
          by_contra noCloser
          have up := height_le_succ shape kinds (opener + 1 + size) noCloser
          omega
        have down := height_after_closer shape kinds (opener + 1 + size) closes
        refine .inr ⟨opener + 1 + size, by omega, (pairs_iff_height _ _ _ _).mpr ?_⟩
        exact ⟨by omega, opens, closes, by omega, waits.above⟩
    · exact .inr ⟨right, by omega, pair⟩

theorem waits_iff_unpaired (shape : Shape) (kinds : List Kind) (position opener : Nat) :
    shape.Waits kinds position opener ↔
      opener < position ∧ kinds[opener]? = some shape.opener ∧
        ∀ right, right < position → ¬ shape.Pairs kinds opener right := by
  constructor
  · intro waits
    exact ⟨waits.before, waits.opens, fun right within =>
      not_pairs_of_waits shape kinds position opener right waits within⟩
  · rintro ⟨before, opens, unpaired⟩
    have outcome := waits_or_pairs shape kinds opener (position - (opener + 1)) opens
    rw [show opener + 1 + (position - (opener + 1)) = position by omega] at outcome
    rcases outcome with waits | ⟨right, within, pair⟩
    · exact waits
    · exact absurd pair (unpaired right within)

end Shape

end CognitiveComplexity
