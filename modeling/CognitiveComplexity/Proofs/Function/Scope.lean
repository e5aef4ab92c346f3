import CognitiveComplexity.Proofs.Bracket.Laminar
import CognitiveComplexity.Proofs.Bracket.Stream
import CognitiveComplexity.Proofs.Scanner.Search
import CognitiveComplexity.Proofs.Score

set_option autoImplicit false

namespace CognitiveComplexity

theorem index_of_mem_drop {α : Type} (items : List α) (start : Nat) (item : α)
    (member : item ∈ items.drop start) : ∃ index, start ≤ index ∧ items[index]? = some item := by
  obtain ⟨offset, here⟩ := List.mem_iff_getElem?.mp member
  rw [List.getElem?_drop] at here
  exact ⟨start + offset, by omega, here⟩

namespace Scope

theorem parameters_spec (rest : List Token) (token : Token)
    (found : parameters? rest = some token) : token ∈ rest ∧ token.kind = .openParen := by
  obtain ⟨here, opens⟩ := Option.filter_eq_some_iff.mp found
  exact ⟨List.mem_of_find?_eq_some here, by simpa using opens⟩

theorem opener_spec (level : Nat) (rest : List Token) (token : Token)
    (found : opener? level rest = some token) :
    token ∈ rest ∧ token.kind = .openCurly ∧ token.level = level := by
  obtain ⟨here, opens⟩ := Option.filter_eq_some_iff.mp found
  exact ⟨List.mem_of_find?_eq_some here, by simpa using opens⟩

theorem at_eq_some (stream : List Token) (position : Nat) (scope : Scope) :
    at? stream position = some scope ↔
      ∃ keyword parameters parametersEnd opener closer,
        stream[position]? = some keyword ∧ keyword.kind = .function ∧
        parameters? (stream.drop (position + 1)) = some parameters ∧
        parameters.partner = some parametersEnd ∧
        opener? keyword.level (stream.drop (parametersEnd + 1)) = some opener ∧
        opener.partner = some closer ∧
        scope = ⟨nameOf (stream.drop (position + 1)), position,
          opener.position, closer, keyword.level⟩ := by
  simp only [at?, Option.bind_eq_bind, Option.bind_eq_some_iff, Option.filter_eq_some_iff,
    beq_iff_eq, Option.pure_def, Option.some.injEq]
  constructor
  · rintro ⟨keyword, ⟨here, named⟩, parameters, first, parametersEnd, closed, opener, opens, closer,
      closes, same⟩
    exact ⟨keyword, parameters, parametersEnd, opener, closer, here, named, first, closed, opens,
      closes, same.symm⟩
  · rintro ⟨keyword, parameters, parametersEnd, opener, closer, here, named, first, closed, opens,
      closes, same⟩
    exact ⟨keyword, ⟨here, named⟩, parameters, first, parametersEnd, closed, opener, opens, closer,
      closes, same.symm⟩

/-- A body whose brackets belong together on the level of its definition, with all that is in it
deeper and its curly brackets matched inside. -/
structure WellFormed (stream : List Token) (scope : Scope) : Prop where
  keyword_lt : scope.keyword < scope.body.start
  start_lt : scope.body.start < scope.body.stop
  stop_lt : scope.body.stop < stream.length
  keyword : ∃ token, stream[scope.keyword]? = some token ∧ token.kind = .function ∧
    token.level = scope.body.baseLevel
  opener : ∃ token, stream[scope.body.start]? = some token ∧ token.kind = .openCurly ∧
    token.partner = some scope.body.stop ∧ token.level = scope.body.baseLevel
  closer : ∃ token, stream[scope.body.stop]? = some token ∧ token.kind = .closeCurly ∧
    token.partner = some scope.body.start ∧ token.level = scope.body.baseLevel
  deeper : ∀ index token, scope.body.start < index → index < scope.body.stop →
    stream[index]? = some token → scope.body.baseLevel + 1 ≤ token.level
  matched : ∀ index token, scope.body.start < index → index < scope.body.stop →
    stream[index]? = some token → token.kind = .openCurly ∨ token.kind = .closeCurly →
    ∃ partner, token.partner = some partner ∧ scope.body.start < partner ∧
      partner < scope.body.stop

section Source

variable (source : Bytes)

theorem parameters_end (position stop : Nat) (parameters : Token)
    (found : parameters? ((Token.ofBytes source).drop (position + 1)) = some parameters)
    (closed : parameters.partner = some stop) :
    position < stop ∧ stop < (Token.ofBytes source).length := by
  obtain ⟨member, opens⟩ := parameters_spec _ _ found
  obtain ⟨index, after, here⟩ := index_of_mem_drop _ _ _ member
  have pair := (Token.partner_opener source index parameters .paren here opens stop).mp closed
  have before := pair.ordered
  have within := (List.getElem?_eq_some_iff.mp pair.closes).1
  rw [List.length_map] at within
  exact ⟨by omega, within⟩

theorem at_pairs (position : Nat) (scope : Scope)
    (found : at? (Token.ofBytes source) position = some scope) :
    scope.keyword = position ∧ position < scope.body.start ∧
      Shape.curly.Pairs ((Token.ofBytes source).map (·.kind)) scope.body.start scope.body.stop ∧
      ∃ keyword opener, (Token.ofBytes source)[position]? = some keyword ∧
        keyword.kind = .function ∧ keyword.level = scope.body.baseLevel ∧
        (Token.ofBytes source)[scope.body.start]? = some opener ∧
        opener.kind = .openCurly ∧ opener.level = scope.body.baseLevel := by
  obtain ⟨keyword, parameters, parametersEnd, opener, closer, here, named, first, closed, opens,
    closes, rfl⟩ := (at_eq_some _ _ _).mp found
  obtain ⟨after, _⟩ := parameters_end source position parametersEnd parameters first closed
  obtain ⟨member, curly, level⟩ := opener_spec _ _ _ opens
  obtain ⟨index, behind, start⟩ := index_of_mem_drop _ _ _ member
  have same := Token.position_ofBytes source index opener start
  have pair := (Token.partner_opener source index opener .curly start curly closer).mp closes
  rw [← same] at start behind pair
  exact ⟨rfl, by simp only; omega, pair, keyword, opener, here, named, rfl, start, curly, level⟩

theorem inner_partner (left right index : Nat) (token : Token)
    (pair : Shape.curly.Pairs ((Token.ofBytes source).map (·.kind)) left right)
    (after : left < index) (before : index < right)
    (found : (Token.ofBytes source)[index]? = some token)
    (bracket : token.kind = .openCurly ∨ token.kind = .closeCurly) :
    ∃ partner, token.partner = some partner ∧ left < partner ∧ partner < right := by
  have kind : ((Token.ofBytes source).map (·.kind))[index]? = some token.kind := by
    rw [List.getElem?_map, found, Option.map_some]
  rcases bracket with opens | closes
  · rw [opens] at kind
    obtain ⟨partner, behind, within, inner⟩ :=
      Shape.pairs_of_inner_opener .curly _ left right index pair after before kind
    have same := (Token.partner_opener source index token .curly found opens partner).mpr inner
    exact ⟨partner, same, by omega, within⟩
  · rw [closes] at kind
    obtain ⟨partner, behind, within, inner⟩ :=
      curly_pairs_of_inner_closer _ left right index pair after before kind
    have same := (Token.partner_closer source index token .curly found closes partner).mpr inner
    exact ⟨partner, same, behind, by omega⟩

theorem at_wellFormed (position : Nat) (scope : Scope)
    (found : at? (Token.ofBytes source) position = some scope) :
    WellFormed (Token.ofBytes source) scope := by
  obtain ⟨rfl, after, pair, keyword, opener, here, named, level, start, opens, same⟩ :=
    at_pairs source position scope found
  have closes := pair.closes
  rw [List.getElem?_map, Option.map_eq_some_iff] at closes
  obtain ⟨closer, stop, closes⟩ := closes
  -- The level of a position is the number of curly brackets around it, one more inside the pair.
  have around := Token.level_ofBytes source scope.body.start opener start
  have outer := Token.level_ofBytes source scope.body.stop closer stop
  rw [← enclosing_pair _ _ _ pair, ← around, same] at outer
  refine ⟨after, pair.ordered, (List.getElem?_eq_some_iff.mp stop).1, ⟨keyword, here, named, level⟩,
    ⟨opener, start, opens, ?_, same⟩, ⟨closer, stop, closes, ?_, outer⟩, ?_, ?_⟩
  · exact (Token.partner_opener source _ opener .curly start opens _).mpr pair
  · exact (Token.partner_closer source _ closer .curly stop closes _).mpr pair
  · intro index token behind before inside
    have deeper := enclosing_card_inside _ _ _ index pair behind before
    rwa [← around, ← Token.level_ofBytes source index token inside, same] at deeper
  · intro index token behind before inside
    exact inner_partner source _ _ index token pair behind before inside

theorem mem_positions (position : Nat) :
    position ∈ positions (Token.ofBytes source) ↔
      ∃ token, (Token.ofBytes source)[position]? = some token ∧ token.kind = .function := by
  simp only [positions, List.mem_map, List.mem_filter, beq_iff_eq]
  constructor
  · rintro ⟨token, ⟨member, named⟩, rfl⟩
    obtain ⟨index, found⟩ := List.mem_iff_getElem?.mp member
    rw [Token.position_ofBytes source index token found]
    exact ⟨token, found, named⟩
  · rintro ⟨token, found, named⟩
    exact ⟨token, ⟨List.mem_of_getElem? found, named⟩,
      Token.position_ofBytes source position token found⟩

theorem mem_all (scope : Scope) :
    scope ∈ all (Token.ofBytes source) ↔
      at? (Token.ofBytes source) scope.keyword = some scope := by
  rw [all, List.mem_filterMap]
  constructor
  · rintro ⟨position, _, found⟩
    rwa [(at_pairs source position scope found).1]
  · intro found
    obtain ⟨_, _, _, keyword, _, here, named, _⟩ := at_pairs source _ scope found
    exact ⟨scope.keyword, (mem_positions source _).mpr ⟨keyword, here, named⟩, found⟩

theorem bodies_disjoint_or_nested (one other : Scope) (left : one ∈ all (Token.ofBytes source))
    (right : other ∈ all (Token.ofBytes source)) :
    (one.body.start = other.body.start ∧ one.body.stop = other.body.stop) ∨
      one.body.stop < other.body.start ∨ other.body.stop < one.body.start ∨
      (one.body.start < other.body.start ∧ other.body.stop < one.body.stop) ∨
      (other.body.start < one.body.start ∧ one.body.stop < other.body.stop) := by
  obtain ⟨_, _, pair, _⟩ := at_pairs source _ one ((mem_all source one).mp left)
  obtain ⟨_, _, pair', _⟩ := at_pairs source _ other ((mem_all source other).mp right)
  exact Shape.pairs_disjoint_or_nested .curly _ _ _ _ _ pair pair'

theorem positions_increase : (Token.ofBytes source).Pairwise (·.position < ·.position) := by
  rw [List.pairwise_iff_getElem]
  intro early late withinEarly withinLate ordered
  rw [Token.position_ofBytes source early _ (List.getElem?_eq_getElem withinEarly),
    Token.position_ofBytes source late _ (List.getElem?_eq_getElem withinLate)]
  exact ordered

theorem keywords_increase : (all (Token.ofBytes source)).Pairwise (·.keyword < ·.keyword) := by
  have increase : (positions (Token.ofBytes source)).Pairwise (· < ·) :=
    List.pairwise_map.mpr ((positions_increase source).filter _)
  refine increase.filterMap _ ?_
  intro early late ordered one found other found'
  rw [(at_pairs source early one found).1, (at_pairs source late other found').1]
  exact ordered

theorem length_ofSource_le (mode : Mode) (place : Place) (bytes : Bytes) :
    (Lexeme.list mode place bytes).length ≤ bytes.length := by
  induction mode, place, bytes using Lexeme.reading_induction with
  | done mode place => simp [Lexeme.list]
  | read mode place first rest ih =>
    rw [Lexeme.list_cons, List.length_append, List.length_cons]
    have single : ((mode.read first rest).kind.toList).length ≤ 1 := by
      cases (mode.read first rest).kind <;> simp
    simp only [List.length_map, List.length_drop] at ih ⊢
    omega

theorem length_ofBytes_le : (Token.ofBytes source).length ≤ source.length := by
  rw [Token.length_ofBytes]
  exact length_ofSource_le _ _ _

theorem level_lt_length (index : Nat) (token : Token)
    (found : (Token.ofBytes source)[index]? = some token) : token.level < source.length := by
  have within := (List.getElem?_eq_some_iff.mp found).1
  have count := List.countP_le_length (l := List.range index)
    (p := Token.opensAround (Token.ofBytes source) index)
  have size := length_ofBytes_le source
  rw [← Token.level_eq_countP source index token found, List.length_range] at count
  omega

theorem level_in_body (body : Body) (token : Token)
    (member : token ∈ body.tokens (Token.ofBytes source)) : token.level < source.length := by
  have listed := List.mem_of_mem_drop (List.mem_of_mem_take member)
  obtain ⟨index, found⟩ := List.mem_iff_getElem?.mp listed
  exact level_lt_length source index token found

theorem measure_in_body (scope : Scope) (wellFormed : WellFormed (Token.ofBytes source) scope)
    (index : Nat) (token : Token) (state : TryState) (after : scope.body.start < index)
    (before : index < scope.body.stop) (found : (Token.ofBytes source)[index]? = some token)
    (fits : source.length < 0x8000000000000000) :
    (if state.isInside then 0 else 1) ≤ Scan.measure scope.body.baseLevel state token.level := by
  have deeper := wellFormed.deeper index token after before found
  have bound := level_lt_length source index token found
  rw [Scan.measure_exact _ _ state (by omega) (by omega)]
  split <;> omega

end Source

def checkedName (tokens : Array Token) (position : Nat) : Except Scanner.Fault Bytes := do
  let rest ← Scanner.tokensFrom tokens (position + 1)
  let shown := rest.filter fun token => token.kind != .comment && token.kind != .bitwiseAnd
  return (((shown.take 1).find? (·.kind == .identifier)).map (·.text)).getD anonymous

def checkedOpener? (tokens : Array Token) (level parametersEnd : Nat) :
    Except Scanner.Fault (Option Token) := do
  let rest ← Scanner.tokensFrom tokens (parametersEnd + 1)
  return opener? level rest

def checkedAt? (tokens : Array Token) (position : Nat) : Except Scanner.Fault (Option Scope) := do
  match tokens[position]?.filter (·.kind == .function) with
  | none => return none
  | some keyword =>
    let behind ← Scanner.tokensFrom tokens (position + 1)
    match (parameters? behind).bind (·.partner) with
    | none => return none
    | some parametersEnd =>
      match ← checkedOpener? tokens keyword.level parametersEnd with
      | none => return none
      | some opener =>
        match opener.partner with
        | none => return none
        | some closer =>
          let name ← checkedName tokens position
          return some ⟨name, position, opener.position, closer, keyword.level⟩

theorem tokensFrom_eq (stream : List Token) (index : Nat) (within : index < stream.length) :
    Scanner.tokensFrom stream.toArray (index + 1) = .ok (stream.drop (index + 1)) := by
  simp only [Scanner.tokensFrom, List.size_toArray]
  rw [if_pos (by omega)]

theorem nameOf_eq (rest : List Token) :
    ((((rest.filter fun token => token.kind != .comment && token.kind != .bitwiseAnd).take 1).find?
      (·.kind == .identifier)).map (·.text)).getD anonymous = nameOf rest := by
  unfold nameOf
  have first : rest.find? (fun token => token.kind != .comment && token.kind != .bitwiseAnd) =
      (rest.filter fun token => token.kind != .comment && token.kind != .bitwiseAnd).head? :=
    List.head?_filter.symm
  rw [first]
  cases rest.filter fun token => token.kind != .comment && token.kind != .bitwiseAnd with
  | nil => rfl
  | cons token more => by_cases named : token.kind = .identifier <;> simp [named]

theorem checkedAt_eq (source : Bytes) (position : Nat) :
    checkedAt? (Token.ofBytes source).toArray position =
      .ok (at? (Token.ofBytes source) position) := by
  unfold checkedAt? at?
  simp only [List.getElem?_toArray, Option.bind_eq_bind]
  cases here : (Token.ofBytes source)[position]?.filter (·.kind == .function) with
  | none => rfl
  | some keyword =>
    have within := (List.getElem?_eq_some_iff.mp (Option.filter_eq_some_iff.mp here).1).1
    simp only [tokensFrom_eq _ position within, Scanner.ok_bind, Option.bind_some]
    cases first : parameters? ((Token.ofBytes source).drop (position + 1)) with
    | none => rfl
    | some parameters =>
      simp only [Option.bind_some]
      cases closed : parameters.partner with
      | none => rfl
      | some parametersEnd =>
        have inside := (parameters_end source position parametersEnd parameters first closed).2
        simp only [checkedOpener?, checkedName, tokensFrom_eq _ parametersEnd inside,
          tokensFrom_eq _ position within, Scanner.ok_bind, Scanner.pure_eq_ok, Option.bind_some]
        cases opener? keyword.level ((Token.ofBytes source).drop (parametersEnd + 1)) with
        | none => rfl
        | some opener =>
          cases closes : opener.partner with
          | none => simp [closes]
          | some closer => simp [closes, nameOf_eq]

/-- The functions of a source: each can be looked up at any position without leaving the tokens, its
body is well formed and deeper than it, bodies are nested or apart, and they come in the order of
their keywords. -/
theorem all_wellFormed (source : String) :
    (∀ position, checkedAt? (Token.stream source).toArray position =
      .ok (at? (Token.stream source) position)) ∧
    (∀ scope ∈ all (Token.stream source), WellFormed (Token.stream source) scope ∧
      ∀ index token state, scope.body.start < index → index < scope.body.stop →
        (Token.stream source)[index]? = some token →
        (Bytes.ofString source).length < 0x8000000000000000 →
        (if state.isInside then 0 else 1) ≤
          Scan.measure scope.body.baseLevel state token.level) ∧
    (∀ one ∈ all (Token.stream source), ∀ other ∈ all (Token.stream source),
      (one.body.start = other.body.start ∧ one.body.stop = other.body.stop) ∨
        one.body.stop < other.body.start ∨ other.body.stop < one.body.start ∨
        (one.body.start < other.body.start ∧ other.body.stop < one.body.stop) ∨
        (other.body.start < one.body.start ∧ one.body.stop < other.body.stop)) ∧
    (all (Token.stream source)).Pairwise (·.keyword < ·.keyword) := by
  unfold Token.stream
  generalize Bytes.ofString source = bytes
  refine ⟨checkedAt_eq bytes, ?_, ?_, keywords_increase bytes⟩
  · intro scope member
    have wellFormed := at_wellFormed bytes scope.keyword scope ((mem_all bytes scope).mp member)
    exact ⟨wellFormed, measure_in_body bytes scope wellFormed⟩
  · intro one left other right
    exact bodies_disjoint_or_nested bytes one other left right

end Scope

end CognitiveComplexity
