import CognitiveComplexity.Proofs.Bracket.Hosting
import CognitiveComplexity.Proofs.Function.Scope
import CognitiveComplexity.Proofs.Token.Concat
import Mathlib.Data.List.Sort

set_option autoImplicit false

/-!
Functions whose tokens stand at other places. If the tokens of one stream, from a position on, stand
in another stream with nothing but comments between them and all on levels that grow by one number,
then so do its functions, with the same names and the same scores.
-/

namespace CognitiveComplexity

theorem drop_of_getElem? {α : Type} (items : List α) (index : Nat) (item : α)
    (found : items[index]? = some item) : items.drop index = item :: items.drop (index + 1) := by
  obtain ⟨within, rfl⟩ := List.getElem?_eq_some_iff.mp found
  exact List.drop_eq_getElem_cons within

theorem both_of_map_eq {α β γ : Type} (f : α → γ) (g : β → γ) (left : Option α) (right : Option β)
    (same : left.map f = right.map g) :
    (left = none ∧ right = none) ∨ ∃ a b, left = some a ∧ right = some b ∧ f a = g b := by
  cases left <;> cases right <;> simp_all

theorem bind_of_map_eq {α β γ δ ε : Type} (f : α → γ) (g : β → γ) (h : ε → δ) (left : Option α)
    (right : Option β) (next : α → Option δ) (next' : β → Option ε) (same : left.map f = right.map g)
    (step : ∀ a b, right = some b → f a = g b → next a = (next' b).map h) :
    left.bind next = (right.bind next').map h := by
  rcases both_of_map_eq f g left right same with ⟨rfl, rfl⟩ | ⟨a, b, rfl, rfl, alike⟩
  · rfl
  · exact step a b rfl alike

namespace Token

def shown (tokens : List Token) : List Token := tokens.filter (·.kind != .comment)

/-- A token at another position of a stream, with so many more curly brackets around it. Its place in
the text is left open. -/
def move (place : Nat → Nat) (lift : Nat) (token : Token) : Token :=
  { token with
    position := place token.position
    level := token.level + lift
    line := 0
    column := 0
    partner := token.partner.map place }

def unplaced : Token → Token := move id 0

theorem unplaced_eq_move_iff (place : Nat → Nat) (lift : Nat) (token other : Token) :
    other.unplaced = token.move place lift ↔
      other.kind = token.kind ∧ other.text = token.text ∧ other.position = place token.position ∧
        other.level = token.level + lift ∧ other.partner = token.partner.map place := by
  simp [unplaced, move]

theorem filter_moved {place : Nat → Nat} {lift : Nat} {left right : Option Token}
    (keep keep' : Token → Bool) (stays : ∀ token, keep' (unplaced token) = keep' token)
    (moves : ∀ token, keep' (move place lift token) = keep token)
    (same : left.map unplaced = right.map (move place lift)) :
    (left.filter keep').map unplaced = (right.filter keep).map (move place lift) := by
  have filtered := congrArg (Option.filter keep') same
  rwa [Option.filter_map, Option.filter_map, show keep' ∘ unplaced = keep' from funext stays,
    show keep' ∘ move place lift = keep from funext moves] at filtered

theorem shown_append (left right : List Token) :
    shown (left ++ right) = shown left ++ shown right :=
  List.filter_append left right

theorem shown_drop_gap (tokens : List Token) (left right : Nat) (ordered : left ≤ right)
    (gap : ∀ index token, left ≤ index → index < right → tokens[index]? = some token →
      token.kind = .comment) : shown (tokens.drop left) = shown (tokens.drop right) := by
  obtain ⟨size, rfl⟩ := Nat.exists_eq_add_of_le ordered
  rw [← List.drop_drop, ← List.take_append_drop size (tokens.drop left), shown_append,
    List.take_append_drop]
  have hidden : shown ((tokens.drop left).take size) = [] := by
    rw [shown, List.filter_eq_nil_iff]
    intro token member
    obtain ⟨index, found⟩ := List.mem_iff_getElem?.mp member
    rw [List.getElem?_take, Option.ite_none_right_eq_some, List.getElem?_drop] at found
    simp [gap (left + index) token (by omega) (by omega) found.2]
  rw [hidden, List.nil_append]

theorem find_shown (choose : Kind → Bool) (hidden : choose .comment = false) (tokens : List Token) :
    (shown tokens).find? (fun token => choose token.kind) =
      tokens.find? fun token => choose token.kind := by
  rw [shown, List.find?_filter]
  congr 1
  funext token
  by_cases comment : token.kind = .comment <;> simp [comment, hidden]

end Token

section Moved

open Token

variable {place : Nat → Nat} {lift : Nat} {tokens others : List Token}
  (same : (shown others).map unplaced = (shown tokens).map (move place lift))
include same

theorem find_moved (choose : Kind → Bool) (hidden : choose .comment = false) :
    (others.find? fun token => choose token.kind).map unplaced =
      (tokens.find? fun token => choose token.kind).map (move place lift) := by
  have first := congrArg (List.find? fun token => choose token.kind) same
  rw [List.find?_map, List.find?_map] at first
  rw [← find_shown choose hidden, ← find_shown choose hidden tokens]
  exact first

theorem nameOf_moved : Scope.nameOf others = Scope.nameOf tokens := by
  unfold Scope.nameOf
  rcases both_of_map_eq _ _ _ _
    (find_moved same (fun kind => kind != .comment && kind != .bitwiseAnd) rfl) with
    ⟨none', none⟩ | ⟨other, token, some', some, moved⟩
  · rw [none', none]
  · obtain ⟨kind, text, _⟩ := (unplaced_eq_move_iff place lift token other).mp moved
    simp only [some', some, kind, text]

theorem parameters_moved :
    (Scope.parameters? others).map unplaced = (Scope.parameters? tokens).map (move place lift) := by
  refine filter_moved _ _ (fun _ => rfl) (fun _ => rfl) ?_
  exact find_moved same
    (fun kind => kind == .openParen || kind == .openCurly || kind == .semicolon) rfl

theorem opener_moved (level : Nat) :
    (Scope.opener? (level + lift) others).map unplaced =
      (Scope.opener? level tokens).map (move place lift) := by
  refine filter_moved _ _ (fun _ => rfl) (fun token => ?_)
    (find_moved same (fun kind => kind == .openCurly || kind == .semicolon) rfl)
  have cancel : (token.level + lift == level + lift) = (token.level == level) := by
    rw [Bool.eq_iff_iff, beq_iff_eq, beq_iff_eq]
    exact Nat.add_right_cancel_iff
  exact congrArg (token.kind == .openCurly && ·) cancel

end Moved

/-- The tokens from a position on, at their places in another stream. -/
structure Relocated (place : Nat → Nat) (lift start : Nat) (stream others : List Token) : Prop where
  mono : ∀ left right, start ≤ left → left < right → place left < place right
  token : ∀ position, start ≤ position →
    others[place position]?.map Token.unplaced = stream[position]?.map (Token.move place lift)
  gap : ∀ position index token, start ≤ position → place position < index →
    index < place (position + 1) → others[index]? = some token → token.kind = .comment

section Relocated

open Token

variable {place : Nat → Nat} {lift start : Nat} {stream others : List Token}
  (relocated : Relocated place lift start stream others)
include relocated

theorem shown_next (position : Nat) (fromHere : start ≤ position) :
    shown (others.drop (place position + 1)) = shown (others.drop (place (position + 1))) := by
  refine shown_drop_gap others _ _ (relocated.mono position _ fromHere (by omega)) ?_
  intro index token after before found
  exact relocated.gap position index token fromHere after before found

theorem shown_from (position : Nat) (fromHere : start ≤ position) :
    (shown (others.drop (place position))).map unplaced =
      (shown (stream.drop position)).map (move place lift) := by
  -- From the end of the stream towards the position.
  generalize size : stream.length - position = remaining
  induction remaining generalizing position with
  | zero =>
    have missing := relocated.token position fromHere
    rw [List.getElem?_eq_none (show stream.length ≤ position by omega), Option.map_none,
      Option.map_eq_none_iff, List.getElem?_eq_none_iff] at missing
    rw [List.drop_eq_nil_of_le missing, List.drop_eq_nil_of_le (by omega)]
    rfl
  | succ remaining ih =>
    have later := ih (position + 1) (by omega) (by omega)
    rw [← shown_next relocated position fromHere] at later
    rcases both_of_map_eq _ _ _ _ (relocated.token position fromHere) with
      ⟨_, missing⟩ | ⟨other, token, there, here, moved⟩
    · rw [List.getElem?_eq_none_iff] at missing
      omega
    · have kind := ((unplaced_eq_move_iff place lift token other).mp moved).1
      rw [drop_of_getElem? others _ other there, drop_of_getElem? stream _ token here]
      unfold shown at later ⊢
      rw [List.filter_cons, List.filter_cons, kind]
      split
      · rw [List.map_cons, List.map_cons, moved, later]
      · exact later

theorem shown_behind (position : Nat) (fromHere : start ≤ position) :
    (shown (others.drop (place position + 1))).map unplaced =
      (shown (stream.drop (position + 1))).map (move place lift) := by
  rw [shown_next relocated position fromHere]
  exact shown_from relocated (position + 1) (by omega)

theorem place_mono (left right : Nat) (fromHere : start ≤ left) (ordered : left ≤ right) :
    place left ≤ place right := by
  rcases Nat.eq_or_lt_of_le ordered with rfl | before
  · exact Nat.le_refl _
  · exact Nat.le_of_lt (relocated.mono left right fromHere before)

theorem place_of_shown (index : Nat) (token : Token) (found : others[index]? = some token)
    (visible : token.kind ≠ .comment) (behind : place start ≤ index) :
    ∃ position, start ≤ position ∧ place position = index := by
  have bounds : ∃ position, start ≤ position ∧ place position ≤ index ∧
      index < place (position + 1) := by
    clear found
    induction index, behind using Nat.le_induction with
    | base => exact ⟨start, le_rfl, le_rfl, relocated.mono start _ le_rfl (by omega)⟩
    | succ index _ ih =>
      obtain ⟨position, fromHere, after, before⟩ := ih
      by_cases next : index + 1 < place (position + 1)
      · exact ⟨position, fromHere, by omega, next⟩
      · have further := relocated.mono (position + 1) (position + 1 + 1) (by omega) (by omega)
        exact ⟨position + 1, by omega, by omega, by omega⟩
  obtain ⟨position, fromHere, after, before⟩ := bounds
  refine ⟨position, fromHere, Nat.le_antisymm after ?_⟩
  by_contra inside
  exact visible (relocated.gap position index token fromHere (by omega) before found)

end Relocated

theorem relocated_of_hosts {place : Nat → Nat} {lift start : Nat} {outer : Set Nat}
    (source other : Bytes) (count : outer.ncard = lift)
    (hosts : Hosts place start outer ((Token.ofBytes source).map (·.kind))
      ((Token.ofBytes other).map (·.kind)))
    (spelled : ∀ position, start ≤ position →
      ((Token.ofBytes other).map Token.spelling)[place position]? =
        ((Token.ofBytes source).map Token.spelling)[position]?)
    (gap : ∀ position index token, start ≤ position → place position < index →
      index < place (position + 1) → (Token.ofBytes other)[index]? = some token →
      token.kind = .comment) :
    Relocated place lift start (Token.ofBytes source) (Token.ofBytes other) := by
  refine ⟨hosts.mono, ?_, gap⟩
  intro position fromHere
  have same := spelled position fromHere
  rw [List.getElem?_map, List.getElem?_map] at same
  rcases both_of_map_eq _ _ _ _ same with ⟨there, here⟩ | ⟨moved, token, there, here, spelling⟩
  · rw [there, here]
    rfl
  obtain ⟨kind, text⟩ := Prod.mk.inj spelling
  have within : position < ((Token.ofBytes source).map (·.kind)).length := by
    rw [List.length_map]
    exact (List.getElem?_eq_some_iff.mp here).1
  rw [there, here, Option.map_some, Option.map_some, Option.some.injEq, Token.unplaced_eq_move_iff]
  refine ⟨kind, text, ?_, ?_, Option.ext fun partner => ?_⟩
  · rw [Token.position_ofBytes other _ moved there, Token.position_ofBytes source _ token here]
  · rw [Token.level_ofBytes other _ moved there, Token.level_ofBytes source _ token here, ← count]
    exact enclosing_card_place hosts position fromHere within
  · rw [Token.partner_ofBytes other _ moved there, linked_place_iff hosts position _ fromHere within,
      Option.map_eq_some_iff]
    simp only [Token.partner_ofBytes source _ token here]

def Body.relocate (place : Nat → Nat) (lift : Nat) (body : Body) : Body :=
  ⟨place body.start, place body.stop, body.baseLevel + lift⟩

def Scope.relocate (place : Nat → Nat) (lift : Nat) (scope : Scope) : Scope :=
  ⟨scope.name, place scope.keyword, scope.body.relocate place lift⟩

section Scopes

open Token

variable {place : Nat → Nat} {lift start : Nat} {source other : Bytes}

theorem at_relocated {others : List Token}
    (relocated : Relocated place lift start (ofBytes source) others) (position : Nat)
    (fromHere : start ≤ position) :
    Scope.at? others (place position) =
      (Scope.at? (ofBytes source) position).map (Scope.relocate place lift) := by
  have behind := shown_behind relocated
  -- The keyword, the parameters, their end, the opening bracket and its partner, one after another.
  refine bind_of_map_eq _ _ _ _ _ _ _
    (filter_moved _ _ (fun _ => rfl) (fun _ => rfl) (relocated.token position fromHere)) ?_
  intro keyword' keyword _ moved
  obtain ⟨_, _, _, level, _⟩ := (unplaced_eq_move_iff place lift keyword keyword').mp moved
  refine bind_of_map_eq _ _ _ _ _ _ _ (parameters_moved (behind position fromHere)) ?_
  intro parameters' parameters first moved
  obtain ⟨_, _, _, _, closed⟩ := (unplaced_eq_move_iff place lift parameters parameters').mp moved
  refine bind_of_map_eq id place _ _ _ _ _ (by rw [closed, Option.map_id, id]) ?_
  rintro _ parametersEnd closes rfl
  have after := (Scope.parameters_end source position parametersEnd parameters first closes).1
  rw [level]
  refine bind_of_map_eq _ _ _ _ _ _ _ (opener_moved (behind parametersEnd (by omega)) _) ?_
  intro opener' opener _ moved
  obtain ⟨_, _, start, _, closed⟩ := (unplaced_eq_move_iff place lift opener opener').mp moved
  refine bind_of_map_eq id place _ _ _ _ _ (by rw [closed, Option.map_id, id]) ?_
  rintro _ closer _ rfl
  rw [start, nameOf_moved (behind position fromHere)]
  rfl

-- The functions from the start on are found again behind its place, and no others.
theorem all_relocated (relocated : Relocated place lift start (ofBytes source) (ofBytes other)) :
    (Scope.all (ofBytes other)).filter (fun scope => decide (place start ≤ scope.keyword)) =
      ((Scope.all (ofBytes source)).filter fun scope => decide (start ≤ scope.keyword)).map
        (Scope.relocate place lift) := by
  have irreflexive : Std.Irrefl fun one other : Scope => one.keyword < other.keyword :=
    ⟨fun _ => Nat.lt_irrefl _⟩
  have antisymmetric : Std.Antisymm fun one other : Scope => one.keyword < other.keyword :=
    ⟨fun _ _ left right => (Nat.lt_asymm left right).elim⟩
  refine ((Scope.keywords_increase other).filter _).eq_of_mem_iff ?_ ?_
  · rw [List.pairwise_map]
    refine ((Scope.keywords_increase source).filter _).imp_of_mem ?_
    intro early late member _ ordered
    exact relocated.mono _ _ (by simpa using (List.mem_filter.mp member).2) ordered
  · intro scope
    simp only [List.mem_filter, List.mem_map, Scope.mem_all, decide_eq_true_eq]
    constructor
    · rintro ⟨found, behind⟩
      obtain ⟨_, _, _, keyword, _, here, named, _⟩ := Scope.at_pairs other _ scope found
      obtain ⟨position, fromHere, same⟩ :=
        place_of_shown relocated _ keyword here (by rw [named]; decide) behind
      rw [← same, at_relocated relocated position fromHere, Option.map_eq_some_iff] at found
      obtain ⟨original, found, moved⟩ := found
      obtain rfl := (Scope.at_pairs source _ original found).1
      exact ⟨original, ⟨found, fromHere⟩, moved⟩
    · rintro ⟨original, ⟨found, fromHere⟩, rfl⟩
      refine ⟨?_, place_mono relocated start _ le_rfl fromHere⟩
      rw [Scope.relocate, at_relocated relocated _ fromHere, found]
      rfl

end Scopes

namespace Scan

def lifted (lift : Nat) (scan : Scan) : Scan := { scan with baseLevel := scan.baseLevel + lift }

theorem measure_lifted (baseLevel level lift : Nat) (state : TryState) :
    measure (baseLevel + lift) state (level + lift) = measure baseLevel state level := by
  unfold measure
  congr 1
  push_cast
  ring

theorem feedToken_moved (place : Nat → Nat) (lift : Nat) (scan : Scan) (token : Token) :
    feedToken (scan.lifted lift) (token.move place lift) = (feedToken scan token).lifted lift := by
  simp only [feedToken, feed, lifted, Token.move, measure_lifted]
  split <;> rfl

theorem scan_moved (place : Nat → Nat) (lift : Nat) (scan : Scan) (tokens : List Token) :
    (tokens.map (Token.move place lift)).foldl feedToken (scan.lifted lift) =
      (tokens.foldl feedToken scan).lifted lift := by
  rw [List.foldl_map]
  exact List.foldl_hom (lifted lift) (fun scan token => feedToken_moved place lift scan token)

theorem feedToken_comment (scan : Scan) (token : Token) (comment : token.kind = .comment) :
    feedToken scan token = scan := by
  have stays : scan.state.next .comment = scan.state := by cases scan.state <;> rfl
  have passes : Kind.comment.isIncreasing = false := by decide
  simp [feedToken, feed, comment, stays, passes]

theorem scan_shown (scan : Scan) (tokens : List Token) :
    (Token.shown tokens).foldl feedToken scan = tokens.foldl feedToken scan := by
  rw [Token.shown, List.foldl_filter]
  congr 1
  funext scan token
  by_cases comment : token.kind = .comment
  · simp [comment, feedToken_comment scan token comment]
  · simp [comment]

end Scan

theorem Body.tokens_append (body : Body) (stream : List Token) (ordered : body.start < body.stop) :
    body.tokens stream ++ stream.drop body.stop = stream.drop (body.start + 1) := by
  have rest : stream.drop body.stop =
      (stream.drop (body.start + 1)).drop (body.stop - (body.start + 1)) := by
    rw [List.drop_drop]
    congr 1
    omega
  rw [tokens, rest, List.take_append_drop]

theorem score_relocated {place : Nat → Nat} {lift start : Nat} {stream others : List Token}
    (relocated : Relocated place lift start stream others) (body : Body)
    (fromHere : start ≤ body.start) (ordered : body.start < body.stop) :
    (body.relocate place lift).score others = body.score stream := by
  have tokens := body.tokens_append stream ordered
  have tokens' := (body.relocate place lift).tokens_append others
    (relocated.mono _ _ fromHere ordered)
  have whole := shown_behind relocated body.start fromHere
  simp only [Body.relocate] at tokens'
  rw [← tokens', ← tokens, Token.shown_append, Token.shown_append, List.map_append, List.map_append,
    shown_from relocated body.stop (by omega)] at whole
  have inner := List.append_cancel_right whole
  have moved := Scan.scan_moved place lift (.start body.baseLevel) (Token.shown (body.tokens stream))
  have kept := Scan.scan_moved id 0 (.start (body.baseLevel + lift))
    (Token.shown ((body.relocate place lift).tokens others))
  have scanned : (Token.shown ((body.relocate place lift).tokens others)).foldl Scan.feedToken
        (.start (body.baseLevel + lift)) =
      ((Token.shown (body.tokens stream)).foldl Scan.feedToken (.start body.baseLevel)).lifted lift :=
    kept.symm.trans ((congrArg (List.foldl _ _) inner).trans moved)
  rw [Scan.scan_shown, Scan.scan_shown] at scanned
  have scores := congrArg Scan.score scanned
  exact scores

theorem scope_score_relocated {place : Nat → Nat} {lift start : Nat} {source other : Bytes}
    (relocated : Relocated place lift start (Token.ofBytes source) (Token.ofBytes other))
    (scope : Scope) (member : scope ∈ Scope.all (Token.ofBytes source)) (fromHere : start ≤ scope.keyword) :
    (scope.body.relocate place lift).score (Token.ofBytes other) =
      scope.body.score (Token.ofBytes source) := by
  have wellFormed := Scope.at_wellFormed source _ scope ((Scope.mem_all source scope).mp member)
  have after := wellFormed.keyword_lt
  exact score_relocated relocated scope.body (by omega) wellFormed.start_lt

end CognitiveComplexity
