import CognitiveComplexity.Proofs.Bracket.Embedding

set_option autoImplicit false

namespace CognitiveComplexity

def Placed (place : Nat → Nat) (start : Nat) (kinds : List Kind) (position : Nat) : Prop :=
  ∃ origin, start ≤ origin ∧ origin < kinds.length ∧ place origin = position

structure Hosts (place : Nat → Nat) (start : Nat) (outer : Set Nat) (kinds others : List Kind) : Prop
    extends Embeds place start kinds others where
  -- There are no brackets before the start.
  grounded : ∀ position kind, kinds[position]? = some kind → kind.isBracket = true →
    start ≤ position
  paired : ∀ (shape : Shape) (left right : Nat), shape.Pairs others left right →
    (Placed place start kinds left ↔ Placed place start kinds right)
  around : ∀ position opener, start ≤ position → position < kinds.length →
    ¬ Placed place start kinds opener →
    (opener ∈ enclosing others (place position) ↔ opener ∈ outer)
  apart : ∀ opener ∈ outer, ¬ Placed place start kinds opener

section Hosts

variable {place : Nat → Nat} {start : Nat} {outer : Set Nat} {kinds others : List Kind}
  (hosts : Hosts place start outer kinds others)
include hosts

theorem linked_grounded (one other : Nat) (linked : Linked kinds one other) :
    start ≤ one ∧ start ≤ other ∧ one < kinds.length ∧ other < kinds.length := by
  have bounds (shape : Shape) (left right : Nat) (pair : shape.Pairs kinds left right) :
      start ≤ left ∧ start ≤ right ∧ left < kinds.length ∧ right < kinds.length :=
    ⟨hosts.grounded left _ pair.opens shape.opener_isBracket,
      hosts.grounded right _ pair.closes shape.closer_isBracket,
      (List.getElem?_eq_some_iff.mp pair.opens).1, (List.getElem?_eq_some_iff.mp pair.closes).1⟩
  obtain ⟨shape, pair | pair⟩ := linked
  · exact bounds shape one other pair
  · obtain ⟨fromOther, fromOne, withinOther, withinOne⟩ := bounds shape other one pair
    exact ⟨fromOne, fromOther, withinOne, withinOther⟩

theorem placed_of_linked (one other : Nat) (linked : Linked others one other)
    (placed : Placed place start kinds one) : Placed place start kinds other := by
  obtain ⟨shape, pair | pair⟩ := linked
  · exact (hosts.paired shape one other pair).mp placed
  · exact (hosts.paired shape other one pair).mpr placed

-- The partner of a place is the place of the partner.
theorem linked_place_iff (position other : Nat) (fromHere : start ≤ position)
    (within : position < kinds.length) :
    Linked others (place position) other ↔
      ∃ origin, Linked kinds position origin ∧ place origin = other := by
  constructor
  · intro linked
    obtain ⟨origin, fromOrigin, inside, rfl⟩ :=
      placed_of_linked hosts _ other linked ⟨position, fromHere, within, rfl⟩
    exact ⟨origin, linked_of_place hosts.toEmbeds position origin fromHere fromOrigin within inside
      linked, rfl⟩
  · rintro ⟨origin, linked, rfl⟩
    exact linked_place hosts.toEmbeds position origin fromHere
      (linked_grounded hosts position origin linked).2.1 linked

theorem place_mem_enclosing_iff (position opener : Nat) (fromHere : start ≤ position)
    (within : position < kinds.length) (fromOpener : start ≤ opener)
    (inside : opener < kinds.length) :
    place opener ∈ enclosing others (place position) ↔ opener ∈ enclosing kinds position := by
  refine place_mem_enclosing hosts.toEmbeds position opener fromHere fromOpener within ?_
  intro right _ pair
  exact (hosts.paired .curly _ right pair).mp ⟨opener, fromOpener, inside, rfl⟩

theorem enclosing_grounded (position opener : Nat) (member : opener ∈ enclosing kinds position) :
    start ≤ opener ∧ opener < kinds.length :=
  ⟨hosts.grounded opener _ member.2.opens Shape.curly.opener_isBracket,
    (List.getElem?_eq_some_iff.mp member.2.opens).1⟩

theorem enclosing_place (position : Nat) (fromHere : start ≤ position)
    (within : position < kinds.length) :
    enclosing others (place position) = place '' enclosing kinds position ∪ outer := by
  ext opener
  by_cases placed : Placed place start kinds opener
  · have inner : opener ∉ outer := fun member => hosts.apart opener member placed
    obtain ⟨origin, fromOrigin, inside, rfl⟩ := placed
    rw [place_mem_enclosing_iff hosts position origin fromHere within fromOrigin inside, Set.mem_union,
      or_iff_left inner]
    refine ⟨fun member => ⟨origin, member, rfl⟩, ?_⟩
    rintro ⟨other, member, same⟩
    have fromOther := (enclosing_grounded hosts position other member).1
    rwa [← place_injective hosts.toEmbeds other origin fromOther fromOrigin same]
  · rw [hosts.around position opener fromHere within placed, Set.mem_union, or_iff_right]
    rintro ⟨origin, member, same⟩
    obtain ⟨fromOrigin, inside⟩ := enclosing_grounded hosts position origin member
    exact placed ⟨origin, fromOrigin, inside, same⟩

theorem enclosing_card_place (position : Nat) (fromHere : start ≤ position)
    (within : position < kinds.length) :
    (enclosing others (place position)).ncard = (enclosing kinds position).ncard + outer.ncard := by
  have finite := enclosing_finite others (place position)
  rw [enclosing_place hosts position fromHere within] at finite ⊢
  rw [Set.ncard_union_eq _ (finite.subset Set.subset_union_left)
    (finite.subset Set.subset_union_right), Set.InjOn.ncard_image]
  · intro one memberOne other memberOther same
    exact place_injective hosts.toEmbeds one other (enclosing_grounded hosts position one memberOne).1
      (enclosing_grounded hosts position other memberOther).1 same
  · rw [Set.disjoint_right]
    rintro opener member ⟨origin, inner, same⟩
    obtain ⟨fromOrigin, inside⟩ := enclosing_grounded hosts position origin inner
    exact hosts.apart opener member ⟨origin, fromOrigin, inside, same⟩

end Hosts

theorem placed_of_bracket (front inserted rest : List Kind)
    (plain : ∀ kind ∈ inserted, kind.isBracket = false) (position : Nat) (kind : Kind)
    (found : (front ++ (inserted ++ rest))[position]? = some kind) (bracket : kind.isBracket = true) :
    Placed (skip front.length inserted.length) 0 (front ++ rest) position := by
  have within := (List.getElem?_eq_some_iff.mp found).1
  simp only [List.length_append] at within
  by_cases early : position < front.length
  · exact ⟨position, Nat.zero_le _, by rw [List.length_append]; omega, if_pos early⟩
  · rw [List.getElem?_append_right (by omega)] at found
    by_cases late : front.length + inserted.length ≤ position
    · refine ⟨position - inserted.length, Nat.zero_le _, by rw [List.length_append]; omega, ?_⟩
      rw [skip, if_neg (by omega)]
      omega
    · rw [List.getElem?_append_left (by omega)] at found
      rw [plain kind (List.mem_of_getElem? found)] at bracket
      cases bracket

theorem hosts_insert (front inserted rest : List Kind)
    (plain : ∀ kind ∈ inserted, kind.isBracket = false) :
    Hosts (skip front.length inserted.length) 0 ∅ (front ++ rest) (front ++ (inserted ++ rest)) := by
  have placed := placed_of_bracket front inserted rest plain
  refine ⟨embeds_insert front inserted rest plain, fun _ _ _ _ => Nat.zero_le _, ?_, ?_, by simp⟩
  · intro shape left right pair
    exact iff_of_true (placed left _ pair.opens shape.opener_isBracket)
      (placed right _ pair.closes shape.closer_isBracket)
  · intro position opener _ _ away
    refine iff_of_false ?_ (Set.notMem_empty opener)
    intro member
    exact away (placed opener _ member.2.opens Shape.curly.opener_isBracket)

section Shift

variable (front rest : List Kind) (first last : Kind)

theorem placed_shift (position : Nat) :
    Placed (· + front.length) 1 (first :: rest) position ↔
      front.length < position ∧ position < (front ++ last :: rest).length := by
  simp only [Placed, List.length_cons, List.length_append]
  constructor
  · rintro ⟨origin, fromHere, within, rfl⟩
    omega
  · rintro ⟨behind, within⟩
    exact ⟨position - front.length, by omega, by omega, by omega⟩

-- A pair does not reach across the cut if all closing brackets behind it are paired there.
theorem paired_shift (plain : first.isBracket = false)
    (matched : ∀ (shape : Shape) (right : Nat), (first :: rest)[right]? = some shape.closer →
      ∃ left, shape.Pairs (first :: rest) left right)
    (shape : Shape) (left right : Nat) (pair : shape.Pairs (front ++ last :: rest) left right) :
    Placed (· + front.length) 1 (first :: rest) left ↔
      Placed (· + front.length) 1 (first :: rest) right := by
  have ordered := pair.ordered
  have withinLeft := (List.getElem?_eq_some_iff.mp pair.opens).1
  have withinRight := (List.getElem?_eq_some_iff.mp pair.closes).1
  have embeds := embeds_shift front rest first last
  constructor
  · intro placed
    have behind := (placed_shift front rest first last left).mp placed
    exact (placed_shift front rest first last right).mpr ⟨by omega, withinRight⟩
  · rintro ⟨origin, fromHere, within, rfl⟩
    obtain ⟨partner, inner⟩ :=
      matched shape origin (kind_of_place embeds origin _ fromHere within pair.closes)
    -- What stands first is no bracket, so the partner is behind the cut.
    have behind : 1 ≤ partner := by
      rcases Nat.eq_zero_or_pos partner with rfl | positive
      · have clash := Option.some.inj inner.opens
        rw [clash, shape.opener_isBracket] at plain
        cases plain
      · exact positive
    have moved := pairs_place embeds shape partner origin behind inner
    have same := Shape.pairs_left_unique shape _ left _ _ pair moved
    exact ⟨partner, behind, (List.getElem?_eq_some_iff.mp inner.opens).1, same.symm⟩

theorem hosts_shift (plain : first.isBracket = false)
    (matched : ∀ (shape : Shape) (right : Nat), (first :: rest)[right]? = some shape.closer →
      ∃ left, shape.Pairs (first :: rest) left right) :
    Hosts (· + front.length) 1 {opener | Shape.curly.Waits (front ++ [last]) (front.length + 1) opener}
      (first :: rest) (front ++ last :: rest) := by
  have placed := placed_shift front rest first last
  have paired := paired_shift front rest first last plain matched
  have joined : front ++ last :: rest = (front ++ [last]) ++ rest := by simp
  have embeds : Embeds id 0 (front ++ [last]) (front ++ last :: rest) := by
    rw [joined]
    exact embeds_append _ _
  refine ⟨embeds_shift front rest first last, ?_, paired, ?_, ?_⟩
  · intro position kind found bracket
    rcases Nat.eq_zero_or_pos position with rfl | positive
    · rw [← Option.some.inj found, plain] at bracket
      cases bracket
    · exact positive
  · intro position opener fromHere within away
    simp only [enclosing, Set.mem_ofPred_eq, Shape.waits_iff_unpaired]
    rw [placed] at away
    constructor
    · rintro ⟨_, _, opens, unpaired⟩
      have inside := (List.getElem?_eq_some_iff.mp opens).1
      have early : opener ≤ front.length := by omega
      refine ⟨by omega, kind_of_place embeds opener _ (Nat.zero_le _) (by simp; omega) opens, ?_⟩
      intro right upTo pair
      exact unpaired right (by omega) (pairs_place embeds _ opener right (Nat.zero_le _) pair)
    · rintro ⟨upTo, opens, unpaired⟩
      refine ⟨by omega, by omega, embeds.kind opener _ (Nat.zero_le _) opens, ?_⟩
      intro right _ pair
      -- The partner would be in front of the cut as well.
      have near := (paired .curly opener right pair).not.mp (by rw [placed]; exact away)
      rw [placed] at near
      have inside := (List.getElem?_eq_some_iff.mp pair.closes).1
      have early : right < front.length + 1 := by omega
      exact unpaired right early (pairs_of_place embeds _ opener right (Nat.zero_le _)
        (Nat.zero_le _) (by simpa using upTo) (by simpa using early) pair)
  · intro opener waits
    have before := waits.before
    rw [placed]
    omega

end Shift

end CognitiveComplexity
