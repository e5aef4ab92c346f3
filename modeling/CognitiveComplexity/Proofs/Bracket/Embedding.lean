import CognitiveComplexity.Proofs.Bracket.Nesting

set_option autoImplicit false

/-!
Brackets of one list of kinds inside another one. If the kinds from a position on have places in the
other list, in order and with the same brackets between any two of them, then pairs go to pairs, and
the brackets around a position go to brackets around its place.
-/

namespace CognitiveComplexity

structure Embeds (place : Nat → Nat) (start : Nat) (kinds others : List Kind) : Prop where
  mono : ∀ left right, start ≤ left → left < right → place left < place right
  kind : ∀ position kind, start ≤ position → kinds[position]? = some kind →
    others[place position]? = some kind
  between : ∀ (shape : Shape) (left right : Nat), start ≤ left → left < right →
    right < kinds.length → shape.brackets (Shape.between others (place left) (place right)) =
      shape.brackets (Shape.between kinds left right)

section Embeds

variable {place : Nat → Nat} {start : Nat} {kinds others : List Kind}
  (embeds : Embeds place start kinds others)
include embeds

theorem place_lt_iff (left right : Nat) (fromLeft : start ≤ left) (fromRight : start ≤ right) :
    place left < place right ↔ left < right := by
  constructor
  · intro before
    by_contra late
    rcases Nat.lt_or_ge right left with earlier | same
    · have after := embeds.mono right left fromRight earlier
      omega
    · rw [Nat.le_antisymm same (by omega)] at before
      omega
  · exact embeds.mono left right fromLeft

theorem place_injective (left right : Nat) (fromLeft : start ≤ left) (fromRight : start ≤ right)
    (same : place left = place right) : left = right := by
  have before := place_lt_iff embeds left right fromLeft fromRight
  have after := place_lt_iff embeds right left fromRight fromLeft
  omega

theorem kind_of_place (position : Nat) (kind : Kind) (fromHere : start ≤ position)
    (within : position < kinds.length) (found : others[place position]? = some kind) :
    kinds[position]? = some kind := by
  have here := List.getElem?_eq_getElem within
  rw [here, ← embeds.kind position _ fromHere here, found]

theorem pairs_place (shape : Shape) (left right : Nat) (fromHere : start ≤ left)
    (pair : shape.Pairs kinds left right) : shape.Pairs others (place left) (place right) := by
  have ordered := pair.ordered
  have within := (List.getElem?_eq_some_iff.mp pair.closes).1
  refine ⟨embeds.mono left right fromHere ordered, embeds.kind left _ fromHere pair.opens,
    embeds.kind right _ (by omega) pair.closes, ?_⟩
  unfold Shape.Balanced
  rw [embeds.between shape left right fromHere ordered within]
  exact pair.inner

theorem pairs_of_place (shape : Shape) (left right : Nat) (fromLeft : start ≤ left)
    (fromRight : start ≤ right) (withinLeft : left < kinds.length)
    (withinRight : right < kinds.length) (pair : shape.Pairs others (place left) (place right)) :
    shape.Pairs kinds left right := by
  have ordered := (place_lt_iff embeds left right fromLeft fromRight).mp pair.ordered
  refine ⟨ordered, kind_of_place embeds left _ fromLeft withinLeft pair.opens,
    kind_of_place embeds right _ fromRight withinRight pair.closes, ?_⟩
  unfold Shape.Balanced
  rw [← embeds.between shape left right fromLeft ordered withinRight]
  exact pair.inner

theorem linked_place (one other : Nat) (fromOne : start ≤ one) (fromOther : start ≤ other)
    (linked : Linked kinds one other) : Linked others (place one) (place other) := by
  obtain ⟨shape, pair | pair⟩ := linked
  · exact ⟨shape, .inl (pairs_place embeds shape one other fromOne pair)⟩
  · exact ⟨shape, .inr (pairs_place embeds shape other one fromOther pair)⟩

theorem linked_of_place (one other : Nat) (fromOne : start ≤ one) (fromOther : start ≤ other)
    (withinOne : one < kinds.length) (withinOther : other < kinds.length)
    (linked : Linked others (place one) (place other)) : Linked kinds one other := by
  obtain ⟨shape, pair | pair⟩ := linked
  · exact ⟨shape, .inl (pairs_of_place embeds shape one other fromOne fromOther withinOne
      withinOther pair)⟩
  · exact ⟨shape, .inr (pairs_of_place embeds shape other one fromOther fromOne withinOther
      withinOne pair)⟩

-- Provided that what a bracket is paired with up to a place comes from a position too.
theorem place_mem_enclosing (position opener : Nat) (fromHere : start ≤ position)
    (fromOpener : start ≤ opener) (within : position < kinds.length)
    (reached : ∀ right, right ≤ place position → Shape.curly.Pairs others (place opener) right →
      ∃ origin, start ≤ origin ∧ origin < kinds.length ∧ place origin = right) :
    place opener ∈ enclosing others (place position) ↔ opener ∈ enclosing kinds position := by
  have order := place_lt_iff embeds opener position fromOpener fromHere
  simp only [enclosing, Set.mem_ofPred_eq, Shape.waits_iff_unpaired, order]
  refine and_congr_right fun before => ?_
  constructor
  · rintro ⟨_, opens, unpaired⟩
    refine ⟨by omega, kind_of_place embeds opener _ fromOpener (by omega) opens, ?_⟩
    intro right upTo pair
    have ordered := pair.ordered
    have late := place_lt_iff embeds position right fromHere (by omega)
    exact unpaired (place right) (by omega) (pairs_place embeds _ opener right fromOpener pair)
  · rintro ⟨_, opens, unpaired⟩
    refine ⟨by omega, embeds.kind opener _ fromOpener opens, ?_⟩
    intro right upTo pair
    obtain ⟨origin, fromOrigin, inside, rfl⟩ := reached right (by omega) pair
    have late := place_lt_iff embeds position origin fromHere fromOrigin
    exact unpaired origin (by omega) (pairs_of_place embeds _ opener origin fromOpener fromOrigin
      (by omega) inside pair)

end Embeds

namespace Shape

theorem between_append_left (kinds more : List Kind) (left right : Nat)
    (within : right ≤ kinds.length) :
    between (kinds ++ more) left right = between kinds left right := by
  rw [between, List.take_append_of_le_length within, between]

theorem between_append_right (front kinds : List Kind) (left right : Nat) :
    between (front ++ kinds) (left + front.length) (right + front.length) =
      between kinds left right := by
  simp only [between]
  rw [Nat.add_comm right, List.take_length_add_append,
    show left + front.length + 1 = front.length + (left + 1) by omega,
    List.drop_length_add_append]

theorem between_append_both (front kinds : List Kind) (left right : Nat)
    (within : left < front.length) :
    between (front ++ kinds) left (right + front.length) =
      front.drop (left + 1) ++ kinds.take right := by
  rw [between, Nat.add_comm right, List.take_length_add_append,
    List.drop_append_of_le_length within]

theorem brackets_append (shape : Shape) (left right : List Kind) :
    shape.brackets (left ++ right) = shape.brackets left ++ shape.brackets right :=
  List.filterMap_append

theorem brackets_plain (shape : Shape) (kinds : List Kind)
    (plain : ∀ kind ∈ kinds, kind.isBracket = false) : shape.brackets kinds = [] := by
  rw [brackets, List.filterMap_eq_nil_iff]
  intro kind member
  simp [bracket?, shape.ne_opener kind (plain kind member), shape.ne_closer kind (plain kind member)]

end Shape

theorem embeds_append (kinds more : List Kind) : Embeds id 0 kinds (kinds ++ more) := by
  refine ⟨fun _ _ _ ordered => ordered, ?_, ?_⟩
  · intro position kind _ found
    rw [id, List.getElem?_append_left (List.getElem?_eq_some_iff.mp found).1, found]
  · intro shape left right _ _ within
    rw [id, id, Shape.between_append_left kinds more left right (by omega)]

theorem getElem?_shift {α : Type} (front rest : List α) (first last : α) (position : Nat)
    (fromHere : 1 ≤ position) :
    (front ++ last :: rest)[position + front.length]? = (first :: rest)[position]? := by
  obtain ⟨index, rfl⟩ := Nat.exists_eq_add_of_le' fromHere
  rw [List.getElem?_append_right (by omega), Nat.add_sub_cancel]
  simp

theorem embeds_shift (front rest : List Kind) (first last : Kind) :
    Embeds (· + front.length) 1 (first :: rest) (front ++ last :: rest) := by
  refine ⟨fun left right _ ordered => by simpa using ordered, ?_, ?_⟩
  · intro position kind fromHere found
    rw [getElem?_shift front rest first last position fromHere, found]
  · intro shape left right fromHere ordered within
    rw [Shape.between_append_right]
    obtain ⟨index, rfl⟩ := Nat.exists_eq_add_of_lt ordered
    rfl

def skip (cut size position : Nat) : Nat := if position < cut then position else position + size

theorem getElem?_skip {α : Type} (front inserted rest : List α) (position : Nat) :
    (front ++ (inserted ++ rest))[skip front.length inserted.length position]? =
      (front ++ rest)[position]? := by
  unfold skip
  split
  · next before => rw [List.getElem?_append_left before, List.getElem?_append_left before]
  · rw [List.getElem?_append_right (by omega), List.getElem?_append_right (by omega),
      List.getElem?_append_right (by omega)]
    congr 1
    omega

theorem embeds_insert (front inserted rest : List Kind)
    (plain : ∀ kind ∈ inserted, kind.isBracket = false) :
    Embeds (skip front.length inserted.length) 0 (front ++ rest) (front ++ (inserted ++ rest)) := by
  refine ⟨?_, ?_, ?_⟩
  · intro left right _ ordered
    unfold skip
    split_ifs <;> omega
  · intro position kind _ found
    rw [getElem?_skip, found]
  · intro shape left right _ ordered within
    unfold skip
    split_ifs with early late late
    -- Both in front of what is put in, one on each side, both behind it.
    · rw [Shape.between_append_left _ _ _ _ (by omega), Shape.between_append_left _ _ _ _ (by omega)]
    · obtain ⟨distance, rfl⟩ := Nat.exists_eq_add_of_le' (Nat.le_of_not_lt late)
      rw [Shape.between_append_both front rest left distance early,
        show distance + front.length + inserted.length = distance + inserted.length + front.length
          by omega, Shape.between_append_both front _ left _ early, Nat.add_comm distance,
        List.take_length_add_append]
      simp [Shape.brackets_append, Shape.brackets_plain shape inserted plain]
    · omega
    · obtain ⟨fromHere, rfl⟩ := Nat.exists_eq_add_of_le' (Nat.le_of_not_lt early)
      obtain ⟨distance, rfl⟩ := Nat.exists_eq_add_of_le' (Nat.le_of_not_lt late)
      rw [Shape.between_append_right,
        show fromHere + front.length + inserted.length = fromHere + inserted.length + front.length by omega,
        show distance + front.length + inserted.length = distance + inserted.length + front.length
          by omega, Shape.between_append_right, Shape.between_append_right]

end CognitiveComplexity
