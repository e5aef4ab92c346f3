import CognitiveComplexity.Proofs.Token.Stream

set_option autoImplicit false

namespace CognitiveComplexity

namespace Token

def opensAround (stream : List Token) (position opener : Nat) : Bool :=
  stream[opener]?.any fun token =>
    token.kind == .openCurly && token.partner.all fun partner => decide (position < partner)

variable (source : Bytes) (index : Nat) (token : Token)

theorem position_ofBytes (found : (ofBytes source)[index]? = some token) :
    token.position = index := by
  obtain ⟨_, _, _, _, _, _, same⟩ := ofBytes_getElem? source index token found
  rw [same]
  rfl

theorem partner_ofBytes (found : (ofBytes source)[index]? = some token) (other : Nat) :
    token.partner = some other ↔ Linked ((ofBytes source).map (·.kind)) index other := by
  obtain ⟨_, _, mark, _, _, foundMark, same⟩ := ofBytes_getElem? source index token found
  rw [kinds_ofBytes]
  have correct := (Nesting.ofKinds_correct (Lexeme.kinds (Lexeme.ofSource source))).marks
  rw [same]
  refine (correct.partner index mark foundMark other).trans ⟨fun linked => linked.2, ?_⟩
  intro linked
  -- Both ends of a pair are positions of the stream.
  obtain ⟨shape, pair | pair⟩ := linked
  · exact ⟨(List.getElem?_eq_some_iff.mp pair.closes).1, shape, .inl pair⟩
  · exact ⟨(List.getElem?_eq_some_iff.mp pair.opens).1, shape, .inr pair⟩

theorem level_ofBytes (found : (ofBytes source)[index]? = some token) :
    token.level = (enclosing ((ofBytes source).map (·.kind)) index).ncard := by
  obtain ⟨_, _, mark, _, _, foundMark, same⟩ := ofBytes_getElem? source index token found
  rw [kinds_ofBytes, same]
  exact (Nesting.ofKinds_correct _).marks.level index mark foundMark

theorem partner_opener (shape : Shape) (found : (ofBytes source)[index]? = some token)
    (opens : token.kind = shape.opener) (other : Nat) :
    token.partner = some other ↔ shape.Pairs ((ofBytes source).map (·.kind)) index other := by
  have kind : ((ofBytes source).map (·.kind))[index]? = some shape.opener := by
    rw [List.getElem?_map, found, Option.map_some, opens]
  rw [partner_ofBytes source index token found]
  constructor
  · rintro ⟨other, pair | pair⟩
    · have same := Option.some.inj (pair.opens.symm.trans kind)
      rwa [Shape.opener_injective other shape same] at pair
    · have clash := Option.some.inj (pair.closes.symm.trans kind)
      exact (Shape.opener_ne_closer shape other clash.symm).elim
  · exact fun pair => ⟨shape, .inl pair⟩

theorem partner_closer (shape : Shape) (found : (ofBytes source)[index]? = some token)
    (closes : token.kind = shape.closer) (other : Nat) :
    token.partner = some other ↔ shape.Pairs ((ofBytes source).map (·.kind)) other index := by
  have kind : ((ofBytes source).map (·.kind))[index]? = some shape.closer := by
    rw [List.getElem?_map, found, Option.map_some, closes]
  rw [partner_ofBytes source index token found]
  constructor
  · rintro ⟨other, pair | pair⟩
    · have clash := Option.some.inj (pair.opens.symm.trans kind)
      exact (Shape.opener_ne_closer other shape clash).elim
    · have same := Option.some.inj (pair.closes.symm.trans kind)
      rwa [Shape.closer_injective other shape same] at pair
  · exact fun pair => ⟨shape, .inr pair⟩

theorem mem_enclosing_iff (opener : Nat) :
    opener ∈ enclosing ((ofBytes source).map (·.kind)) index ↔
      opener < index ∧ opensAround (ofBytes source) index opener = true := by
  -- A bracket waits behind the token just if no partner of it comes up to the token.
  have shown (before : opener < index) :
      Shape.curly.Waits ((ofBytes source).map (·.kind)) (index + 1) opener ↔
        opensAround (ofBytes source) index opener = true := by
    rw [Shape.waits_iff_unpaired, List.getElem?_map]
    unfold opensAround
    cases found : (ofBytes source)[opener]? with
    | none => simp
    | some token =>
      have pairs := partner_opener source opener token .curly found
      simp only [Option.map_some, Option.some.injEq, Option.any_some, Bool.and_eq_true, beq_iff_eq,
        Option.all_eq_true, decide_eq_true_eq]
      constructor
      · rintro ⟨_, opens, unpaired⟩
        refine ⟨opens, ?_⟩
        intro partner isPartner
        by_contra late
        exact unpaired partner (by omega) ((pairs opens partner).mp isPartner)
      · rintro ⟨opens, late⟩
        refine ⟨by omega, opens, ?_⟩
        intro right within pair
        have after := late right ((pairs opens right).mpr pair)
        omega
  constructor
  · rintro ⟨before, waits⟩
    exact ⟨before, (shown before).mp waits⟩
  · rintro ⟨before, around⟩
    exact ⟨before, (shown before).mpr around⟩

theorem level_eq_countP (found : (ofBytes source)[index]? = some token) :
    token.level = (List.range index).countP (opensAround (ofBytes source) index) := by
  rw [level_ofBytes source index token found, List.countP_eq_length_filter]
  refine ncard_eq_length _ _ (List.nodup_range.filter _) ?_
  intro opener
  rw [mem_enclosing_iff, List.mem_filter, List.mem_range]

theorem partner_bind_ofBytes (other : Nat) :
    (ofBytes source)[index]?.bind (·.partner) = some other ↔
      Linked ((ofBytes source).map (·.kind)) index other := by
  cases found : (ofBytes source)[index]? with
  | none =>
    have missing : ((ofBytes source).map (·.kind))[index]? = none := by
      rw [List.getElem?_map, found, Option.map_none]
    simp only [Option.bind_none, reduceCtorEq, false_iff]
    rintro ⟨shape, pair | pair⟩
    · cases missing.symm.trans pair.opens
    · cases missing.symm.trans pair.closes
  | some token => exact partner_ofBytes source index token found other

theorem linked_ordered_iff (kinds : List Kind) (left right : Nat) (ordered : left < right) :
    Linked kinds left right ↔ ∃ shape : Shape, shape.Pairs kinds left right := by
  constructor
  · rintro ⟨shape, pair | pair⟩
    · exact ⟨shape, pair⟩
    · have reversed := pair.ordered
      omega
  · rintro ⟨shape, pair⟩
    exact ⟨shape, .inl pair⟩

theorem partner_none_of_unpaired (found : (ofBytes source)[index]? = some token)
    (unpaired : ∀ (shape : Shape) (other : Nat),
      ¬ shape.Pairs ((ofBytes source).map (·.kind)) index other ∧
        ¬ shape.Pairs ((ofBytes source).map (·.kind)) other index) :
    token.partner = none := by
  cases given : token.partner with
  | none => rfl
  | some other =>
    obtain ⟨shape, pair | pair⟩ := (partner_ofBytes source index token found other).mp given
    · exact absurd pair (unpaired shape other).1
    · exact absurd pair (unpaired shape other).2

theorem level_unmatched (found : (ofBytes source)[index]? = some token)
    (closes : token.kind = .closeCurly) (single : token.partner = none) : token.level = 0 := by
  rw [level_ofBytes source index token found]
  refine Nesting.enclosing_card_unmatched _ index ?_ ?_
  · rw [List.getElem?_map, found, Option.map_some, closes]
  · intro left pair
    have partner := (partner_ofBytes source index token found left).mpr ⟨.curly, .inr pair⟩
    cases single.symm.trans partner

/-- Brackets are matched and counted the way a reader matches and counts them. A pair has a balanced
word of its own shape between its ends, what is in no pair has no partner, and the level of a token
counts the curly brackets around it. So the ends of a pair of curly brackets have one level, all
between them is deeper, and a closing curly bracket without a partner has level zero. -/
theorem stream_brackets_matched (source : String) :
    (∀ left right, left < right →
      ((stream source)[left]?.bind (·.partner) = some right ↔
        (stream source)[right]?.bind (·.partner) = some left) ∧
      ((stream source)[right]?.bind (·.partner) = some left ↔
        ∃ shape : Shape, shape.Pairs ((stream source).map (·.kind)) left right)) ∧
    (∀ index token, (stream source)[index]? = some token →
      token.position = index ∧
      ((∀ (shape : Shape) (other : Nat),
        ¬ shape.Pairs ((stream source).map (·.kind)) index other ∧
          ¬ shape.Pairs ((stream source).map (·.kind)) other index) → token.partner = none) ∧
      token.level = (List.range index).countP (opensAround (stream source) index) ∧
      (token.kind = .closeCurly → token.partner = none → token.level = 0)) ∧
    (∀ left right opener closer, Shape.curly.Pairs ((stream source).map (·.kind)) left right →
      (stream source)[left]? = some opener → (stream source)[right]? = some closer →
      opener.level = closer.level ∧
      ∀ inner token, left < inner → inner < right → (stream source)[inner]? = some token →
        opener.level + 1 ≤ token.level) := by
  unfold stream
  generalize Bytes.ofString source = bytes
  refine ⟨?_, ?_, ?_⟩
  · intro left right ordered
    rw [partner_bind_ofBytes, partner_bind_ofBytes, ← linked_ordered_iff _ left right ordered]
    exact ⟨⟨linked_symm _ _ _, linked_symm _ _ _⟩, ⟨linked_symm _ _ _, linked_symm _ _ _⟩⟩
  · intro index token found
    exact ⟨position_ofBytes bytes index token found,
      partner_none_of_unpaired bytes index token found,
      level_eq_countP bytes index token found, level_unmatched bytes index token found⟩
  · intro left right opener closer pair foundOpener foundCloser
    have outer := level_ofBytes bytes left opener foundOpener
    constructor
    · rw [outer, level_ofBytes bytes right closer foundCloser, enclosing_pair _ left right pair]
    · intro inner token after before found
      rw [outer, level_ofBytes bytes inner token found]
      exact enclosing_card_inside _ left right inner pair after before

-- The two shapes may cross.
example : (stream "<?php (\x7b)\x7d").map (fun token => (token.level, token.partner)) =
    [(0, none), (0, some 3), (0, some 4), (1, some 1), (0, some 2)] := by
  decide +kernel

end Token

end CognitiveComplexity
