import CognitiveComplexity.Analysis
import CognitiveComplexity.Proofs.Bracket.Embedding
import CognitiveComplexity.Proofs.Function.Scope
import CognitiveComplexity.Proofs.Token.Concat

set_option autoImplicit false

namespace CognitiveComplexity

namespace Token

theorem partner_lt_length (source : Bytes) (index : Nat) (token : Token)
    (found : (ofBytes source)[index]? = some token) (other : Nat)
    (given : token.partner = some other) : other < (ofBytes source).length := by
  obtain ⟨shape, pair | pair⟩ := (partner_ofBytes source index token found other).mp given
  · simpa using (List.getElem?_eq_some_iff.mp pair.closes).1
  · simpa using (List.getElem?_eq_some_iff.mp pair.opens).1

section Closed

variable (source more : Bytes) (closed : Closed (ofBytes source))
include closed

theorem kinds_append :
    (ofBytes (source ++ more)).map (·.kind) =
      (ofBytes source).map (·.kind) ++ (Lexeme.spelled (Lexeme.inside more)).map Prod.fst := by
  rw [kinds_spelling, kinds_spelling, spelling_append source more closed, List.map_append]

theorem enclosing_append (position : Nat) (within : position < (ofBytes source).length) :
    enclosing ((ofBytes (source ++ more)).map (·.kind)) position =
      enclosing ((ofBytes source).map (·.kind)) position := by
  rw [kinds_append source more closed]
  ext opener
  refine place_mem_enclosing (embeds_append _ _) position opener (Nat.zero_le _) (Nat.zero_le _)
    (by simpa using within) ?_
  intro right upTo _
  exact ⟨right, Nat.zero_le _, by rw [List.length_map]; exact Nat.lt_of_le_of_lt upTo within, rfl⟩

theorem partner_append (index : Nat) (token longer : Token)
    (found : (ofBytes source)[index]? = some token)
    (foundLonger : (ofBytes (source ++ more))[index]? = some longer) :
    longer.partner = token.partner ∨ token.partner = none ∧
      (token.kind = .openCurly ∨ token.kind = .openParen) ∧
      ∃ other, longer.partner = some other ∧ (ofBytes source).length ≤ other := by
  have within := (List.getElem?_eq_some_iff.mp found).1
  have partner := partner_ofBytes source index token found
  have partnerLonger := partner_ofBytes (source ++ more) index longer foundLonger
  rw [kinds_append source more closed] at partnerLonger
  have embeds := embeds_append ((ofBytes source).map (·.kind))
    ((Lexeme.spelled (Lexeme.inside more)).map Prod.fst)
  cases given : token.partner with
  | some other =>
    have linked := (partner other).mp given
    exact .inl ((partnerLonger other).mpr
      (linked_place embeds index other (Nat.zero_le _) (Nat.zero_le _) linked))
  | none =>
    cases gained : longer.partner with
    | none => exact .inl rfl
    | some other =>
      have linked := (partnerLonger other).mp gained
      -- A partner among the old tokens would have been one before.
      have late : (ofBytes source).length ≤ other := by
        by_contra early
        have old := (partner other).mpr (linked_of_place embeds index other (Nat.zero_le _)
          (Nat.zero_le _) (by simpa using within) (by simpa using early) linked)
        rw [given] at old
        cases old
      refine .inr ⟨rfl, ?_, other, rfl, late⟩
      obtain ⟨shape, pair⟩ := (linked_ordered_iff _ index other (by omega)).mp linked
      have opens := pair.opens
      rw [List.getElem?_append_left (by simpa using within), List.getElem?_map, found,
        Option.map_some, Option.some.injEq] at opens
      cases shape with
      | curly => exact .inl opens
      | paren => exact .inr opens

theorem ofBytes_append_getElem? (index : Nat) (token : Token)
    (found : (ofBytes source)[index]? = some token) :
    ∃ partner, (ofBytes (source ++ more))[index]? = some { token with partner } ∧
      (partner = token.partner ∨ token.partner = none ∧
        (token.kind = .openCurly ∨ token.kind = .openParen) ∧
        ∃ other, partner = some other ∧ (ofBytes source).length ≤ other) := by
  have within := (List.getElem?_eq_some_iff.mp found).1
  have kinds := kinds_append source more closed
  have lexemes := ofSource_append source more closed
  have longest : (ofBytes source).length ≤ (ofBytes (source ++ more)).length := by
    have lengths := congrArg List.length kinds
    simp only [List.length_append, List.length_map] at lengths
    omega
  obtain ⟨longer, foundLonger⟩ : ∃ longer, (ofBytes (source ++ more))[index]? = some longer :=
    ⟨_, List.getElem?_eq_getElem (by omega)⟩
  have level := level_ofBytes (source ++ more) index longer foundLonger
  rw [enclosing_append source more closed index within,
    ← level_ofBytes source index token found] at level
  have kind := congrArg (·[index]?) kinds
  simp only [List.getElem?_append_left (show index < ((ofBytes source).map (·.kind)).length by
    simpa using within), List.getElem?_map, found, foundLonger, Option.map_some,
    Option.some.injEq] at kind
  -- Text and place are those of the lexeme, which is the same.
  obtain ⟨lexeme, _, _, here, _, _, same⟩ := ofBytes_getElem? source index token found
  obtain ⟨lexeme', _, _, here', _, _, same'⟩ :=
    ofBytes_getElem? (source ++ more) index longer foundLonger
  rw [lexemes, List.getElem?_append_left (List.getElem?_eq_some_iff.mp here).1, here,
    Option.some.injEq] at here'
  refine ⟨longer.partner, ?_, partner_append source more closed index token longer found foundLonger⟩
  rw [foundLonger]
  subst same same' here'
  simp only [ofLexeme] at level kind ⊢
  rw [level, kind]

def upTo (size : Nat) (token : Token) : Token :=
  { token with partner := token.partner.filter (· < size) }

theorem ofBytes_eq_take :
    ofBytes source =
      ((ofBytes (source ++ more)).take (ofBytes source).length).map
        (upTo (ofBytes source).length) := by
  apply List.ext_getElem?
  intro index
  rw [List.getElem?_map, List.getElem?_take]
  split
  · next within =>
    have found := List.getElem?_eq_getElem within
    generalize (ofBytes source)[index] = token at found
    obtain ⟨partner, foundLonger, change⟩ :=
      ofBytes_append_getElem? source more closed index token found
    have kept : partner.filter (· < (ofBytes source).length) = token.partner := by
      rcases change with rfl | ⟨single, _, other, rfl, late⟩
      · cases given : token.partner with
        | none => rfl
        | some other => simp [partner_lt_length source index token found other given]
      · simp [single, late]
    rw [found, foundLonger, Option.map_some, upTo, kept]
  · next outside => rw [List.getElem?_eq_none (by omega), Option.map_none]

end Closed

end Token

namespace Scope

section UpTo

variable (stream : List Token) (size : Nat)

theorem find_upTo (start : Nat) (keep : Token → Bool) (token : Token)
    (blind : ∀ token, keep (token.upTo size) = keep token)
    (found : (((stream.take size).map (Token.upTo size)).drop start).find? keep = some token) :
    ∃ longer, (stream.drop start).find? keep = some longer ∧ token = longer.upTo size := by
  have same : keep ∘ Token.upTo size = keep := funext blind
  rw [← List.map_drop, List.find?_map, same, Option.map_eq_some_iff] at found
  obtain ⟨longer, here, rfl⟩ := found
  exact ⟨longer, ((List.take_prefix size stream).drop start).find?_eq_some here, rfl⟩

theorem parameters_upTo (start : Nat) (token : Token)
    (found : parameters? (((stream.take size).map (Token.upTo size)).drop start) = some token) :
    ∃ longer, parameters? (stream.drop start) = some longer ∧ token = longer.upTo size := by
  obtain ⟨here, opens⟩ := Option.filter_eq_some_iff.mp found
  obtain ⟨longer, first, rfl⟩ := find_upTo stream size start _ token (fun _ => rfl) here
  exact ⟨longer, Option.filter_eq_some_iff.mpr ⟨first, opens⟩, rfl⟩

theorem opener_upTo (level start : Nat) (token : Token)
    (found : opener? level (((stream.take size).map (Token.upTo size)).drop start) = some token) :
    ∃ longer, opener? level (stream.drop start) = some longer ∧ token = longer.upTo size := by
  obtain ⟨here, opens⟩ := Option.filter_eq_some_iff.mp found
  obtain ⟨longer, first, rfl⟩ := find_upTo stream size start _ token (fun _ => rfl) here
  exact ⟨longer, Option.filter_eq_some_iff.mpr ⟨first, opens⟩, rfl⟩

theorem nameOf_upTo (start : Nat) (token : Token)
    (member : token ∈ ((stream.take size).map (Token.upTo size)).drop start)
    (visible : token.kind ≠ .comment ∧ token.kind ≠ .bitwiseAnd) :
    nameOf (((stream.take size).map (Token.upTo size)).drop start) =
      nameOf (stream.drop start) := by
  unfold nameOf
  cases found : (((stream.take size).map (Token.upTo size)).drop start).find? fun token =>
      token.kind != .comment && token.kind != .bitwiseAnd with
  | none =>
    have hidden := List.find?_eq_none.mp found token member
    simp [visible] at hidden
  | some first =>
    obtain ⟨longer, here, rfl⟩ := find_upTo stream size start _ first (fun _ => rfl) found
    rw [here]
    rfl

theorem at_upTo (position : Nat) (scope : Scope)
    (found : at? ((stream.take size).map (Token.upTo size)) position = some scope) :
    at? stream position = some scope := by
  obtain ⟨keyword, parameters, parametersEnd, opener, closer, here, named, first, closed, opens,
    closes, rfl⟩ := (at_eq_some _ _ _).mp found
  have name := nameOf_upTo stream size (position + 1) parameters (parameters_spec _ _ first).1 (by
    rw [(parameters_spec _ _ first).2]
    decide)
  rw [List.getElem?_map, Option.map_eq_some_iff] at here
  obtain ⟨keyword', here', rfl⟩ := here
  rw [List.getElem?_take, Option.ite_none_right_eq_some] at here'
  obtain ⟨parameters', first', rfl⟩ := parameters_upTo stream size _ _ first
  obtain ⟨opener', opens', rfl⟩ := opener_upTo stream size _ _ _ opens
  rw [name]
  exact (at_eq_some _ _ _).mpr ⟨keyword', parameters', parametersEnd, opener', closer, here'.2,
    named, first', (Option.filter_eq_some_iff.mp closed).1, opens',
    (Option.filter_eq_some_iff.mp closes).1, rfl⟩

theorem tokens_upTo (body : Body) (within : body.stop ≤ size) :
    body.tokens ((stream.take size).map (Token.upTo size)) =
      (body.tokens stream).map (Token.upTo size) := by
  unfold Body.tokens
  rw [← List.map_drop, ← List.map_take, List.drop_take, List.take_take,
    Nat.min_eq_left (by omega)]

theorem score_upTo (body : Body) (within : body.stop ≤ size) :
    body.score ((stream.take size).map (Token.upTo size)) = body.score stream := by
  unfold Body.score Body.scan
  rw [tokens_upTo stream size body within, List.foldl_map]
  rfl

end UpTo

/-- More text behind a semicolon or a curly bracket changes no token but for the partner of a bracket
that was open, and no function that was complete. -/
theorem all_append (source more : String) (closed : Token.Closed (Token.stream source)) :
    (∀ (index : Nat) (token : Token), (Token.stream source)[index]? = some token →
      ∃ partner, (Token.stream (source ++ more))[index]? = some { token with partner } ∧
        (partner = token.partner ∨ token.partner = none ∧
          (token.kind = .openCurly ∨ token.kind = .openParen) ∧
          ∃ other, partner = some other ∧ (Token.stream source).length ≤ other)) ∧
    ∀ scope ∈ all (Token.stream source), scope ∈ all (Token.stream (source ++ more)) ∧
      scope.body.score (Token.stream (source ++ more)) = scope.body.score (Token.stream source) ∧
      ∀ threshold,
        scope.body.violation? (Token.stream (source ++ more)) threshold =
          scope.body.violation? (Token.stream source) threshold ∧
        FunctionScore.ofScope (Token.stream (source ++ more)) threshold scope =
          FunctionScore.ofScope (Token.stream source) threshold scope := by
  unfold Token.stream at closed ⊢
  rw [Bytes.ofString_append]
  generalize Bytes.ofString source = bytes at closed ⊢
  generalize Bytes.ofString more = rest
  have kept := Token.ofBytes_append_getElem? bytes rest closed
  have cut := Token.ofBytes_eq_take bytes rest closed
  refine ⟨kept, ?_⟩
  intro scope member
  have found := (mem_all bytes scope).mp member
  obtain ⟨_, _, inside, _, opener, _⟩ := at_wellFormed bytes _ scope found
  have score : scope.body.score (Token.ofBytes (bytes ++ rest)) =
      scope.body.score (Token.ofBytes bytes) := by
    rw [← score_upTo _ _ scope.body (Nat.le_of_lt inside), ← cut]
  refine ⟨(mem_all _ scope).mpr ?_, score, fun threshold => ⟨?_, ?_⟩⟩
  · rw [cut] at found
    exact at_upTo _ _ _ scope found
  · rw [Body.violation?, score, Body.violation?]
  · obtain ⟨token, here, _⟩ := opener
    obtain ⟨partner, there, _⟩ := kept _ token here
    simp only [FunctionScore.ofScope, score, List.getD_eq_getElem?_getD, here, there,
      Option.getD_some]

-- A complete function, and a class whose bracket is open.
def openClass : String := "<?php function f() \x7b if ($a) \x7b \x7d \x7d class C \x7b"

theorem all_append_openClass :
    Token.Closed (Token.stream openClass) ∧
    all (Token.stream openClass) = [⟨Bytes.ofString "f", 1, 5, 12, 0⟩] ∧
    (⟨Bytes.ofString "f", 1, 5, 12, 0⟩ : Scope) ∈
      all (Token.stream (openClass ++ " \x7d function (")) ∧
    Body.score ⟨5, 12, 0⟩ (Token.stream (openClass ++ " \x7d function (")) =
      Body.score ⟨5, 12, 0⟩ (Token.stream openClass) := by
  have closed : Token.Closed (Token.stream openClass) :=
    ⟨⟨.openCurly, [0x7B], 15, 0, 1, 44, none⟩, by decide +kernel, rfl⟩
  have found : all (Token.stream openClass) = [⟨Bytes.ofString "f", 1, 5, 12, 0⟩] := by
    decide +kernel
  have kept := (all_append openClass " \x7d function (" closed).2
    ⟨Bytes.ofString "f", 1, 5, 12, 0⟩ (by rw [found]; exact List.mem_singleton_self _)
  exact ⟨closed, found, kept.1, kept.2.1⟩

end Scope

end CognitiveComplexity
