import CognitiveComplexity.Proofs.Scanner.Step

set_option autoImplicit false

namespace CognitiveComplexity

namespace Lexeme

theorem filter_eq_dropWhile {α : Type} (drops : α → Bool) (items : List α) :
    items.filter (fun item => !drops item) =
      match items.dropWhile drops with
      | [] => []
      | item :: more => item :: more.filter (fun item => !drops item) := by
  induction items with
  | nil => rfl
  | cons item items ih =>
    by_cases dropped : drops item = true
    · rw [List.dropWhile_cons_of_pos dropped, List.filter_cons_of_neg (by simp [dropped]), ih]
    · rw [List.dropWhile_cons_of_neg dropped, List.filter_cons_of_pos (by simp [dropped])]

def parametersFollow (kinds : List Kind) : Bool :=
  match kinds with
  | [] => false
  | next :: more => next == .openParen || (next == .bitwiseAnd && more.head?.any (· == .openParen))

theorem startsParameters_eq (lexemes : List Lexeme) :
    startsParameters lexemes =
      parametersFollow ((lexemes.map (·.kind)).filter (· != .comment)) := by
  have visible : ((lexemes.map (·.kind)).filter (· != .comment)) =
      (lexemes.filter (fun lexeme => !lexeme.isComment)).map (·.kind) := by
    rw [List.filter_map]
    rfl
  rw [visible, filter_eq_dropWhile]
  unfold startsParameters skipComments
  cases lexemes.dropWhile isComment with
  | nil => rfl
  | cons next more =>
    simp only [filter_eq_dropWhile isComment more]
    cases more.dropWhile isComment <;> rfl

end Lexeme

namespace Scanner

open Byte Bytes

theorem isAnonymous_eq (tokens : Array Token) (index : Nat) (within : index < tokens.size)
    (lexemes : List Lexeme)
    (following : (tokens.toList.drop (index + 1)).map (·.kind) = lexemes.map (·.kind)) :
    isAnonymous tokens index = .ok (Lexeme.startsParameters lexemes) := by
  have visible : ((tokens.toList.drop (index + 1)).filter (·.kind != .comment)).map (·.kind) =
      (lexemes.map (·.kind)).filter (· != .comment) := by
    rw [← following, List.filter_map]
    rfl
  unfold isAnonymous tokensFrom
  rw [if_pos (Nat.succ_le_of_lt within), ok_bind, Lexeme.startsParameters_eq, ← visible]
  cases (tokens.toList.drop (index + 1)).filter (·.kind != .comment) with
  | nil => rfl
  | cons next more => cases more <;> rfl

def Introduced (earlier : List Token) (previous : Option Nat) (introduced : Bool) : Prop :=
  match previous with
  | none => introduced = false
  | some index => ∃ token, earlier[index]? = some token ∧
      introduced = Lexeme.introducesName token.kind token.text

theorem introduced_append (earlier : List Token) (token : Token) (previous : Option Nat)
    (introduced : Bool) (known : Introduced earlier previous introduced) :
    Introduced (earlier ++ [token]) previous introduced := by
  cases previous with
  | none => exact known
  | some index =>
    obtain ⟨before, found, same⟩ := known
    refine ⟨before, ?_, same⟩
    rw [List.getElem?_append_left (List.getElem?_eq_some_iff.mp found).1, found]

theorem introducesAt_eq (tokens : Array Token) (earlier later : List Token) (previous : Option Nat)
    (introduced : Bool) (split : tokens.toList = earlier ++ later)
    (known : Introduced earlier previous introduced) :
    introducesAt tokens previous = .ok introduced := by
  cases previous with
  | none =>
    rw [show introduced = false from known]
    rfl
  | some index =>
    obtain ⟨token, found, same⟩ := known
    have whole : tokens[index]? = some token := by
      rw [← Array.getElem?_toList, split,
        List.getElem?_append_left (List.getElem?_eq_some_iff.mp found).1, found]
    simp only [introducesAt, tokenAt, whole, ok_bind, same]
    rfl

section Pending

-- The first token that has not got its kind yet, among the others.
variable {tokens : Array Token} {earlier later : List Token} {lexeme : Lexeme} {mark : Mark}

theorem pending_size (split : tokens.toList =
      earlier ++ Token.ofLexeme lexeme lexeme.kind earlier.length mark :: later) :
    earlier.length < tokens.size := by
  rw [← Array.length_toList, split]
  simp

theorem pending_tokenAt (split : tokens.toList =
      earlier ++ Token.ofLexeme lexeme lexeme.kind earlier.length mark :: later) :
    tokenAt tokens earlier.length =
      .ok (Token.ofLexeme lexeme lexeme.kind earlier.length mark) := by
  unfold tokenAt
  rw [← Array.getElem?_toList, split]
  simp

theorem pending_kindAt (split : tokens.toList =
      earlier ++ Token.ofLexeme lexeme lexeme.kind earlier.length mark :: later)
    (previous : Option Nat) (introduced : Bool) (known : Introduced earlier previous introduced)
    (lexemes : List Lexeme) (kinds : later.map (·.kind) = lexemes.map (·.kind)) :
    kindAt tokens previous earlier.length (Token.ofLexeme lexeme lexeme.kind earlier.length mark) =
      .ok (Lexeme.kindIn introduced lexeme lexemes) := by
  have following : (tokens.toList.drop (earlier.length + 1)).map (·.kind) =
      lexemes.map (·.kind) := by
    rw [split, ← kinds]
    simp
  have anonymous := isAnonymous_eq tokens earlier.length (pending_size split) lexemes following
  unfold kindAt Lexeme.kindIn Lexeme.isWord
  rw [introducesAt_eq tokens earlier _ previous introduced split known, ok_bind]
  simp only [Token.ofLexeme, anonymous, ok_bind]
  split
  · rfl
  · by_cases function : lexeme.kind = .function
    · rw [function]
      simp
    · simp [function]

theorem pending_amend (split : tokens.toList =
      earlier ++ Token.ofLexeme lexeme lexeme.kind earlier.length mark :: later) (kind : Kind) :
    ∃ updated, amend tokens earlier.length ({ · with kind }) = .ok updated ∧
      updated.toList = earlier ++ Token.ofLexeme lexeme kind earlier.length mark :: later := by
  refine ⟨_, if_pos (pending_size split), ?_⟩
  rw [Array.toList_modify, split, List.modify_eq_take_drop, List.take_left, List.drop_left]
  rfl

end Pending

theorem reclassify_from (lexemes : List Lexeme) (marks : List Mark)
    (fits : marks.length = lexemes.length) (earlier : List Token) (tokens : Array Token)
    (previous : Option Nat) (introduced : Bool) (known : Introduced earlier previous introduced)
    (held : tokens.toList = earlier ++
      Token.assemble earlier.length lexemes (lexemes.map (·.kind)) marks) :
    ∃ updated last,
      (List.range' earlier.length lexemes.length).foldlM reclassifyAt (tokens, previous) =
        .ok (updated, last) ∧
      updated.toList = earlier ++
        Token.assemble earlier.length lexemes (Lexeme.kindsFrom introduced lexemes) marks := by
  -- The tokens before the index have the kinds of their context, the others those of their lexemes.
  induction lexemes generalizing marks earlier tokens previous introduced with
  | nil => exact ⟨tokens, previous, rfl, held⟩
  | cons lexeme lexemes ih =>
    rcases marks with _ | ⟨mark, marks⟩
    · cases fits
    have shorter : marks.length = lexemes.length := Nat.succ.inj fits
    have kinds := Token.kinds_assemble (earlier.length + 1) lexemes (lexemes.map (·.kind)) marks
      (List.length_map _) shorter
    rw [List.length_cons, List.range'_succ, List.foldlM_cons, Lexeme.kindsFrom]
    unfold reclassifyAt
    simp only [pending_tokenAt held, ok_bind]
    split
    · next comment =>
      obtain ⟨updated, last, folded, same⟩ := ih marks shorter
        (earlier ++ [Token.ofLexeme lexeme lexeme.kind earlier.length mark]) tokens previous
        introduced (introduced_append _ _ _ _ known) (by simpa [Token.assemble] using held)
      rw [List.length_append, List.length_singleton] at folded same
      rw [if_pos (show lexeme.isComment = true from comment)]
      exact ⟨updated, last, folded, by simpa [Token.assemble] using same⟩
    · next visible =>
      obtain ⟨amended, changed, sameEarlier⟩ :=
        pending_amend held (Lexeme.kindIn introduced lexeme lexemes)
      obtain ⟨updated, last, folded, same⟩ := ih marks shorter
        (earlier ++ [Token.ofLexeme lexeme (Lexeme.kindIn introduced lexeme lexemes)
          earlier.length mark]) amended (some earlier.length)
        (Lexeme.introducesName (Lexeme.kindIn introduced lexeme lexemes) lexeme.text)
        ⟨_, List.getElem?_concat_length, rfl⟩ (by simpa using sameEarlier)
      rw [List.length_append, List.length_singleton] at folded same
      rw [if_neg (show ¬ lexeme.isComment = true from visible),
        pending_kindAt held previous introduced known lexemes kinds, ok_bind, changed, ok_bind]
      exact ⟨updated, last, folded, by simpa [Token.assemble] using same⟩

theorem reclassify_eq (lexemes : List Lexeme) (marks : List Mark)
    (fits : marks.length = lexemes.length) (tokens : Array Token)
    (held : tokens.toList = Token.assemble 0 lexemes (lexemes.map (·.kind)) marks) :
    ∃ updated, reclassify tokens = .ok updated ∧
      updated.toList = Token.assemble 0 lexemes (Lexeme.kinds lexemes) marks := by
  have size : tokens.size = lexemes.length := by
    rw [← Array.length_toList, held, Token.length_assemble 0 lexemes _ _ (List.length_map _) fits]
  obtain ⟨updated, last, folded, same⟩ :=
    reclassify_from lexemes marks fits [] tokens none false rfl held
  refine ⟨updated, ?_, same⟩
  rw [List.length_nil, ← List.range_eq_range', ← size] at folded
  unfold reclassify
  rw [folded]
  rfl

inductive Reaches (source : String) : Scanner → Prop where
  | start : Reaches source start
  | step (scanner next : Scanner) (reached : Reaches source scanner)
      (unfinished : scanner.cursor < (ofString source).length)
      (stepped : scanner.step source = .ok next) : Reaches source next

theorem reaches_follows (source : String) (scanner : Scanner) (reached : Reaches source scanner) :
    ∃ lexemes, Follows source scanner lexemes := by
  induction reached with
  | start => exact ⟨[], start_follows source⟩
  | step scanner next _ unfinished stepped ih =>
    obtain ⟨lexemes, follows⟩ := ih
    obtain ⟨other, later, same, following, _⟩ :=
      step_follows source scanner lexemes follows unfinished
    cases stepped.symm.trans same
    exact ⟨later, following⟩

/-- Scanning a source ends without a fault, with its tokens. On the way the cursor is between two
characters and not before its line, and every step moves it on without leaving the source. -/
theorem tokenize_faultless (source : String) :
    tokenize source = .ok (Token.stream source) ∧
      ∀ scanner, Reaches source scanner →
        scanner.lineStart ≤ scanner.cursor ∧ Boundary source scanner.cursor ∧
        (scanner.cursor < (ofString source).length →
          ∃ next, scanner.step source = .ok next ∧ scanner.cursor < next.cursor ∧
            next.cursor ≤ (ofString source).length) := by
  refine ⟨?_, ?_⟩
  · obtain ⟨final, lexemes, ran, follows, stop⟩ := run_follows source start []
      (ofString source).length (start_follows source) (Nat.le_add_left _ _)
    obtain ⟨marks, nested, held⟩ := follows.holds
    have all : Lexeme.ofSource (ofString source) = lexemes := by
      rw [follows.remaining, stop, List.drop_length, Lexeme.list, List.append_nil]
    have fits : marks.toList.length = lexemes.length := by
      have size := (Nesting.ofKinds_correct (lexemes.map (·.kind))).marks.size
      rwa [nested, List.length_map] at size
    obtain ⟨updated, reclassified, same⟩ :=
      reclassify_eq lexemes marks.toList fits final.tokens held
    unfold tokenize
    rw [ran, ok_bind, reclassified, ok_bind, same, pure_eq_ok]
    unfold Token.stream Token.ofBytes Token.ofLexemes
    rw [all, nested]
  · intro scanner reached
    obtain ⟨lexemes, follows⟩ := reaches_follows source scanner reached
    refine ⟨follows.lineStart, follows.between, fun unfinished => ?_⟩
    obtain ⟨next, later, stepped, following, further⟩ :=
      step_follows source scanner lexemes follows unfinished
    exact ⟨next, stepped, further, following.within⟩

end Scanner

end CognitiveComplexity
