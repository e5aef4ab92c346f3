import CognitiveComplexity.Analysis
import CognitiveComplexity.Proofs.Function.Relocation

set_option autoImplicit false

namespace CognitiveComplexity

namespace Token

def isUnclosed (token : Token) : Bool := token.kind == .openCurly && token.partner.isNone

def unclosed (stream : List Token) : Nat := stream.countP isUnclosed

theorem waits_end_iff (source : Bytes) (opener : Nat) :
    Shape.curly.Waits ((ofBytes source).map (·.kind)) (ofBytes source).length opener ↔
      ∃ token, (ofBytes source)[opener]? = some token ∧ token.isUnclosed = true := by
  rw [Shape.waits_iff_unpaired, List.getElem?_map]
  constructor
  · rintro ⟨within, opens, unpaired⟩
    obtain ⟨token, here, curly⟩ := Option.map_eq_some_iff.mp opens
    refine ⟨token, here, ?_⟩
    have single : token.partner = none := by
      rw [Option.eq_none_iff_forall_ne_some]
      intro other given
      have pair := (partner_opener source opener token .curly here curly other).mp given
      have inside := (List.getElem?_eq_some_iff.mp pair.closes).1
      exact unpaired other (by simpa using inside) pair
    simp [isUnclosed, single, show token.kind = .openCurly from curly]
  · rintro ⟨token, here, single⟩
    simp only [isUnclosed, Bool.and_eq_true, beq_iff_eq, Option.isNone_iff_eq_none] at single
    refine ⟨(List.getElem?_eq_some_iff.mp here).1, by rw [here, Option.map_some, single.1]; rfl, ?_⟩
    intro right _ pair
    have given := (partner_opener source opener token .curly here single.1 right).mpr pair
    cases single.2.symm.trans given

theorem card_waits_end (source : Bytes) :
    {opener | Shape.curly.Waits ((ofBytes source).map (·.kind)) (ofBytes source).length opener}.ncard =
      unclosed (ofBytes source) := by
  have size : unclosed (ofBytes source) =
      (((ofBytes source).filter isUnclosed).map (·.position)).length := by
    rw [unclosed, List.countP_eq_length_filter, List.length_map]
  rw [size]
  refine ncard_eq_length _ _ ?_ ?_
  · have increase : (((ofBytes source).filter isUnclosed).map (·.position)).Pairwise (· < ·) :=
      List.pairwise_map.mpr ((Scope.positions_increase source).filter _)
    exact increase.imp Nat.ne_of_lt
  · intro opener
    simp only [Set.mem_ofPred_eq, waits_end_iff, List.mem_map, List.mem_filter]
    constructor
    · rintro ⟨token, here, single⟩
      exact ⟨token, ⟨List.mem_of_getElem? here, single⟩, position_ofBytes source opener token here⟩
    · rintro ⟨token, ⟨member, single⟩, rfl⟩
      obtain ⟨index, here⟩ := List.mem_iff_getElem?.mp member
      rw [position_ofBytes source index token here]
      exact ⟨token, here, single⟩

def Matched (stream : List Token) : Prop :=
  ∀ token ∈ stream, token.kind = .closeCurly ∨ token.kind = .closeParen → token.partner.isSome = true

instance (stream : List Token) : Decidable (Matched stream) :=
  inferInstanceAs (Decidable (∀ token ∈ stream, _ → _))

theorem pairs_of_matched (source : Bytes) (matched : Matched (ofBytes source)) (shape : Shape)
    (right : Nat) (closes : ((ofBytes source).map (·.kind))[right]? = some shape.closer) :
    ∃ left, shape.Pairs ((ofBytes source).map (·.kind)) left right := by
  rw [List.getElem?_map, Option.map_eq_some_iff] at closes
  obtain ⟨token, here, kind⟩ := closes
  have bracket : token.kind = .closeCurly ∨ token.kind = .closeParen := by
    cases shape with
    | curly => exact .inl kind
    | paren => exact .inr kind
  obtain ⟨left, given⟩ :=
    Option.isSome_iff_exists.mp (matched token (List.mem_of_getElem? here) bracket)
  exact ⟨left, (partner_closer source right token shape here kind left).mp given⟩

theorem length_pos_of_closed (stream : List Token) (closed : Closed stream) : 0 < stream.length := by
  obtain ⟨token, last, _⟩ := closed
  exact List.length_pos_of_mem (List.mem_of_getLast? last)

theorem relocated_behind (before source : Bytes) (closed : Closed (ofBytes before))
    (matched : Matched (ofBytes (Bytes.ofString "<?php " ++ source))) :
    Relocated (· + ((ofBytes before).length - 1)) (unclosed (ofBytes before)) 1
      (ofBytes (Bytes.ofString "<?php " ++ source)) (ofBytes (before ++ source)) := by
  have tagged := spelling_openTag source
  have joined := spelling_append before source closed
  generalize Lexeme.spelled (Lexeme.inside source) = rest at tagged joined
  have filled : (ofBytes before).map spelling ≠ [] := by
    rw [← List.length_pos_iff, List.length_map]
    exact length_pos_of_closed _ closed
  obtain ⟨front, last, whole⟩ := (List.eq_nil_or_concat' _).resolve_left filled
  have size : (ofBytes before).length = front.length + 1 := by
    rw [← List.length_map (f := spelling), whole, List.length_append]
    rfl
  rw [whole, List.append_assoc] at joined
  have shifted := hosts_shift (front.map Prod.fst) (rest.map Prod.fst) .openTag last.1 rfl (by
    have paired := pairs_of_matched _ matched
    rw [kinds_spelling, tagged] at paired
    exact paired)
  rw [List.length_map] at shifted
  have outer := card_waits_end before
  rw [size] at outer
  rw [size, Nat.add_sub_cancel]
  refine relocated_of_hosts _ _ outer ?_ ?_ ?_
  · rw [kinds_spelling before, kinds_spelling (before ++ source),
      kinds_spelling (Bytes.ofString "<?php " ++ source), whole, joined, tagged, List.map_append,
      List.map_append]
    exact shifted
  · intro position fromHere
    rw [joined, tagged]
    exact getElem?_shift front rest _ last position fromHere
  · intro position index token _ after upTo
    omega

theorem relocated_filler (before more : Bytes) (text : String) (closed : Closed (ofBytes before))
    (filler : Filler text) :
    ∃ size, Relocated (skip (ofBytes before).length size) 0 0 (ofBytes (before ++ more))
      (ofBytes (before ++ Bytes.ofString text ++ more)) := by
  obtain ⟨comments, hidden, padded⟩ := spelling_filler before more closed text filler
  have joined := spelling_append before more closed
  have plain : ∀ kind ∈ comments.map Prod.fst, kind.isBracket = false := by
    intro kind member
    obtain ⟨comment, inside, rfl⟩ := List.mem_map.mp member
    rw [hidden comment inside]
    rfl
  have hosts := hosts_insert (((ofBytes before).map spelling).map Prod.fst) (comments.map Prod.fst)
    ((Lexeme.spelled (Lexeme.inside more)).map Prod.fst) plain
  rw [← List.map_append, ← List.map_append, ← List.map_append, ← joined, ← padded, List.length_map,
    List.length_map, List.length_map, ← kinds_spelling, ← kinds_spelling] at hosts
  refine ⟨comments.length, relocated_of_hosts _ _ (Set.ncard_empty Nat) hosts ?_ ?_⟩
  · intro position _
    have same := getElem?_skip ((ofBytes before).map spelling) comments
      (Lexeme.spelled (Lexeme.inside more)) position
    rwa [← joined, ← padded, List.length_map] at same
  · intro position index token _ after upTo found
    -- There is room between two places only where the comments stand.
    have spelled := congrArg (·[index]?) padded
    simp only [List.getElem?_map, found, Option.map_some] at spelled
    have cut : (ofBytes before).length ≤ index ∧ index - (ofBytes before).length < comments.length := by
      unfold skip at after upTo
      split_ifs at after upTo <;> omega
    rw [List.getElem?_append_right (by simpa using cut.1), List.length_map,
      List.getElem?_append_left cut.2] at spelled
    exact hidden _ (List.mem_of_getElem? spelled.symm)

end Token

namespace Scope

theorem keyword_behind_tag (source : String) (scope : Scope)
    (member : scope ∈ all (Token.stream ("<?php " ++ source))) : 1 ≤ scope.keyword := by
  rcases Nat.eq_zero_or_pos scope.keyword with first | positive
  · obtain ⟨_, _, _, keyword, _, here, named, _⟩ :=
      at_pairs _ _ scope ((mem_all _ scope).mp member)
    have tag := congrArg (·[0]?) (Token.spelling_openTag (Bytes.ofString source))
    rw [first, Bytes.ofString_append] at here
    simp [here, Token.spelling, named] at tag
  · exact positive

/-- A text whose closing brackets all have a partner has the same functions with the same scores
behind any code that ends a statement or bounds a block: they are further behind, and deeper by the
curly brackets that the code leaves open. -/
theorem all_behind (before source : String) (closed : Token.Closed (Token.stream before))
    (matched : Token.Matched (Token.stream ("<?php " ++ source))) :
    (all (Token.stream (before ++ source))).filter
        (fun scope => decide ((Token.stream before).length ≤ scope.keyword)) =
      (all (Token.stream ("<?php " ++ source))).map
        (relocate (· + ((Token.stream before).length - 1)) (Token.unclosed (Token.stream before))) ∧
    ∀ scope ∈ all (Token.stream ("<?php " ++ source)),
      (scope.body.relocate (· + ((Token.stream before).length - 1))
          (Token.unclosed (Token.stream before))).score (Token.stream (before ++ source)) =
        scope.body.score (Token.stream ("<?php " ++ source)) := by
  have relocated := Token.relocated_behind (Bytes.ofString before) (Bytes.ofString source) closed
    (by rwa [← Bytes.ofString_append])
  rw [← Bytes.ofString_append, ← Bytes.ofString_append] at relocated
  have filled := Token.length_pos_of_closed _ closed
  have tagged : (all (Token.stream ("<?php " ++ source))).filter
      (fun scope => decide (1 ≤ scope.keyword)) = all (Token.stream ("<?php " ++ source)) := by
    rw [List.filter_eq_self]
    intro scope member
    exact decide_eq_true (keyword_behind_tag source scope member)
  have cut : 1 + ((Token.stream before).length - 1) = (Token.stream before).length := by omega
  constructor
  · have functions := all_relocated relocated
    change (all (Token.stream (before ++ source))).filter
        (fun scope => decide (1 + ((Token.stream before).length - 1) ≤ scope.keyword)) =
      ((all (Token.stream ("<?php " ++ source))).filter fun scope => decide (1 ≤ scope.keyword)).map _
        at functions
    rw [cut, tagged] at functions
    exact functions
  · intro scope member
    exact scope_score_relocated relocated scope member (keyword_behind_tag source scope member)

-- Brackets that match nothing, a complete function, and two blocks that are open.
def openBlocks : String := "<?php ) \x7d class C \x7b function g() \x7b \x7d \x7b"

def nestedLoop : String := "function f() \x7b if ($a) \x7b while ($b) \x7b \x7d \x7d \x7d"

theorem openBlocks_closed : Token.Closed (Token.stream openBlocks) :=
  ⟨⟨.openCurly, [0x7B], 12, 1, 1, 38, none⟩, by decide +kernel, rfl⟩

theorem all_behind_openBlocks :
    Token.Closed (Token.stream openBlocks) ∧ Token.Matched (Token.stream ("<?php " ++ nestedLoop)) ∧
    (all (Token.stream (openBlocks ++ nestedLoop))).filter
      (fun scope => decide ((Token.stream openBlocks).length ≤ scope.keyword)) =
        [⟨Bytes.ofString "f", 13, 17, 30, 2⟩] ∧
    Body.score ⟨17, 30, 2⟩ (Token.stream (openBlocks ++ nestedLoop)) = 3 := by
  have matched : Token.Matched (Token.stream ("<?php " ++ nestedLoop)) := by decide +kernel
  have found : all (Token.stream ("<?php " ++ nestedLoop)) = [⟨Bytes.ofString "f", 1, 5, 18, 0⟩] := by
    decide +kernel
  have score : Body.score ⟨5, 18, 0⟩ (Token.stream ("<?php " ++ nestedLoop)) = 3 := by
    decide +kernel
  have size : (Token.stream openBlocks).length = 13 := by decide +kernel
  have blocks : Token.unclosed (Token.stream openBlocks) = 2 := by decide +kernel
  obtain ⟨functions, scores⟩ := all_behind openBlocks nestedLoop openBlocks_closed matched
  have kept := scores _ (by rw [found]; exact List.mem_singleton_self _)
  rw [size, blocks] at kept
  refine ⟨openBlocks_closed, matched, ?_, kept.trans score⟩
  rw [functions, found, size, blocks]
  rfl

def summary (stream : List Token) (scope : Scope) : Bytes × Nat × Nat :=
  (scope.name, scope.body.baseLevel, scope.body.score stream)

end Scope

namespace FunctionScore

def summary (function : FunctionScore) : String × Nat × Option Nat :=
  (function.name, function.complexity, function.violation.map (·.score))

theorem summaries_ofSource (threshold : Nat) (source : String) :
    (ofSource threshold source).map summary =
      ((Scope.all (Token.stream source)).map (Scope.summary (Token.stream source))).map
        fun (name, _, score) =>
          (Bytes.decode name, score, if threshold < score then some score else none) := by
  rw [ofSource, List.map_map, List.map_map]
  refine List.map_congr_left fun scope _ => ?_
  simp only [Function.comp_apply, summary, Scope.summary, ofScope, Violation.ofScore?]
  by_cases above : threshold < scope.body.score (Token.stream source) <;> simp [above]

end FunctionScore

namespace Scope

/-- Blanks and comments behind a semicolon or a curly bracket change no name, no level, no score and
no violation. -/
theorem all_filler (before text more : String) (closed : Token.Closed (Token.stream before))
    (filler : Filler text) :
    (all (Token.stream (before ++ text ++ more))).map (fun scope => (scope.name, scope.body.baseLevel)) =
      (all (Token.stream (before ++ more))).map (fun scope => (scope.name, scope.body.baseLevel)) ∧
    (all (Token.stream (before ++ text ++ more))).map (summary (Token.stream (before ++ text ++ more))) =
      (all (Token.stream (before ++ more))).map (summary (Token.stream (before ++ more))) ∧
    ∀ threshold,
      (FunctionScore.ofSource threshold (before ++ text ++ more)).map FunctionScore.summary =
        (FunctionScore.ofSource threshold (before ++ more)).map FunctionScore.summary := by
  obtain ⟨size, relocated⟩ :=
    Token.relocated_filler (Bytes.ofString before) (Bytes.ofString more) text closed filler
  rw [← Bytes.ofString_append, ← Bytes.ofString_append, ← Bytes.ofString_append] at relocated
  have first : skip (Token.stream before).length size 0 = 0 :=
    if_pos (Token.length_pos_of_closed _ closed)
  have functions : all (Token.stream (before ++ text ++ more)) =
      (all (Token.stream (before ++ more))).map
        (relocate (skip (Token.stream before).length size) 0) := by
    have found := all_relocated relocated
    change skip (Token.ofBytes (Bytes.ofString before)).length size 0 = 0 at first
    simp only [first, Nat.zero_le, decide_true, List.filter_true] at found
    exact found
  have summaries : (all (Token.stream (before ++ text ++ more))).map
        (summary (Token.stream (before ++ text ++ more))) =
      (all (Token.stream (before ++ more))).map (summary (Token.stream (before ++ more))) := by
    rw [functions, List.map_map]
    refine List.map_congr_left fun scope member => ?_
    have score := scope_score_relocated relocated scope member (Nat.zero_le _)
    exact congrArg (fun score => (scope.name, scope.body.baseLevel, score)) score
  refine ⟨by rw [functions, List.map_map]; rfl, summaries, fun threshold => ?_⟩
  rw [FunctionScore.summaries_ofSource, FunctionScore.summaries_ofSource, summaries]

-- A comment that holds brackets, a keyword and a quote.
def hiddenCode : String := "/*" ++ " \x7d function x() \x7b ' " ++ "*/"

theorem all_filler_hiddenCode :
    Token.Closed (Token.stream openBlocks) ∧ Filler hiddenCode ∧
    (all (Token.stream (openBlocks ++ hiddenCode ++ nestedLoop))).map
      (summary (Token.stream (openBlocks ++ hiddenCode ++ nestedLoop))) =
        [(Bytes.ofString "g", 1, 0), (Bytes.ofString "f", 2, 3)] := by
  have filler : Filler hiddenCode := .block _ (by decide +kernel)
  have plain : (all (Token.stream (openBlocks ++ nestedLoop))).map
      (summary (Token.stream (openBlocks ++ nestedLoop))) =
        [(Bytes.ofString "g", 1, 0), (Bytes.ofString "f", 2, 3)] := by
    decide +kernel
  have same := (all_filler openBlocks hiddenCode nestedLoop openBlocks_closed filler).2.1
  exact ⟨openBlocks_closed, filler, same.trans plain⟩

end Scope

end CognitiveComplexity
