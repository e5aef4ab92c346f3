import CognitiveComplexity.Proofs.Scanner.Span
import CognitiveComplexity.Proofs.Token.Stream

set_option autoImplicit false

namespace CognitiveComplexity

namespace Token

theorem assemble_append (position : Nat) (lexemes added : List Lexeme)
    (kinds addedKinds : List Kind) (marks addedMarks : List Mark) (kindsFit : kinds.length = lexemes.length)
    (marksFit : marks.length = lexemes.length) :
    assemble position (lexemes ++ added) (kinds ++ addedKinds) (marks ++ addedMarks) =
      assemble position lexemes kinds marks ++
        assemble (position + lexemes.length) added addedKinds addedMarks := by
  induction lexemes generalizing position kinds marks with
  | nil =>
    rw [List.length_eq_zero_iff.mp kindsFit, List.length_eq_zero_iff.mp marksFit]
    rfl
  | cons lexeme lexemes ih =>
    rcases kinds with _ | ⟨kind, kinds⟩
    · cases kindsFit
    · rcases marks with _ | ⟨mark, marks⟩
      · cases marksFit
      · simp only [List.cons_append, assemble, ih (position + 1) kinds marks
          (Nat.succ.inj kindsFit) (Nat.succ.inj marksFit), List.length_cons]
        rw [Nat.add_right_comm, Nat.add_assoc]

theorem assemble_partner (position index : Nat) (partner : Option Nat) (lexemes : List Lexeme)
    (kinds : List Kind) (marks : List Mark) :
    assemble position lexemes kinds (marks.modify index ({ · with partner })) =
      (assemble position lexemes kinds marks).modify index ({ · with partner }) := by
  induction lexemes generalizing position index kinds marks with
  | nil => cases index <;> rfl
  | cons lexeme lexemes ih =>
    rcases kinds with _ | ⟨kind, kinds⟩
    · cases index <;> rfl
    · rcases marks with _ | ⟨mark, marks⟩
      · cases index <;> rfl
      · cases index with
        | zero => rfl
        | succ index =>
          simp only [List.modify_succ_cons, assemble, ih]

end Token

namespace Scanner

open Byte Bytes

def Holds (scanner : Scanner) (lexemes : List Lexeme) : Prop :=
  ∃ marks, Nesting.ofKinds (lexemes.map (·.kind)) =
      ⟨scanner.depth, scanner.curlies, scanner.parens, marks⟩ ∧
    scanner.tokens.toList = Token.assemble 0 lexemes (lexemes.map (·.kind)) marks.toList

theorem start_holds : Holds start [] := ⟨#[], rfl, rfl⟩

theorem ofKinds_snoc (lexemes : List Lexeme) (lexeme : Lexeme) :
    Nesting.ofKinds ((lexemes ++ [lexeme]).map (·.kind)) =
      (Nesting.ofKinds (lexemes.map (·.kind))).step lexeme.kind := by
  rw [List.map_append, Nesting.ofKinds, List.foldl_append]
  rfl

-- One more token, when the tokens before it have the marks that nesting leaves them.
theorem holds_snoc (scanner : Scanner) (lexemes : List Lexeme) (lexeme : Lexeme)
    (tokens : Array Token) (earlier : Array Mark) (mark : Mark) (fits : earlier.size = lexemes.length)
    (held : tokens.toList = Token.assemble 0 lexemes (lexemes.map (·.kind)) earlier.toList)
    (stepped : (Nesting.ofKinds (lexemes.map (·.kind))).step lexeme.kind =
      ⟨scanner.depth, scanner.curlies, scanner.parens, earlier.push mark⟩)
    (added : scanner.tokens =
      tokens.push (Token.ofLexeme lexeme lexeme.kind lexemes.length mark)) :
    Holds scanner (lexemes ++ [lexeme]) := by
  refine ⟨earlier.push mark, (ofKinds_snoc lexemes lexeme).trans stepped, ?_⟩
  rw [added, Array.toList_push, Array.toList_push, held, List.map_append,
    Token.assemble_append 0 lexemes [lexeme] _ _ _ [mark] (List.length_map _) fits, Nat.zero_add]
  rfl

theorem amend_eq (lexemes : List Lexeme) (kinds : List Kind) (tokens : Array Token)
    (marks : Array Mark) (opener : Nat) (partner : Option Nat) (within : opener < tokens.size)
    (held : tokens.toList = Token.assemble 0 lexemes kinds marks.toList) :
    ∃ linked, amend tokens opener ({ · with partner }) = .ok linked ∧
      linked.toList =
        Token.assemble 0 lexemes kinds (marks.modify opener ({ · with partner })).toList := by
  refine ⟨_, if_pos within, ?_⟩
  rw [Array.toList_modify, Array.toList_modify, held, Token.assemble_partner]

-- A token that is no bracket, or a closing one with nothing to close.
theorem step_unlinked (depth : Nat) (curlies parens : List Nat) (marks : Array Mark) (kind : Kind)
    (noCurly : kind ≠ .openCurly) (noParen : kind ≠ .openParen)
    (noPair : kind = .closeCurly → curlies = []) (noPairParen : kind = .closeParen → parens = []) :
    (⟨depth, curlies, parens, marks⟩ : Nesting).step kind =
      ⟨depth, curlies, parens, marks.push ⟨depth, none⟩⟩ := by
  by_cases curly : kind = .closeCurly
  · rw [curly, noPair curly]
    rfl
  · by_cases paren : kind = .closeParen
    · rw [paren, noPairParen paren]
      rfl
    · cases kind <;> first | rfl | contradiction

theorem push_holds (source : String) (scanner : Scanner) (lexemes : List Lexeme)
    (holds : Holds scanner lexemes) (kind : Kind) (start line column : Nat) (text : Bytes)
    (cut : slice source start scanner.cursor = .ok text) :
    ∃ depth curlies parens tokens,
      push source scanner kind start line column =
        .ok { scanner with depth, curlies, parens, tokens } ∧
      Holds { scanner with depth, curlies, parens, tokens }
        (lexemes ++ [⟨kind, text, line, column⟩]) := by
  obtain ⟨marks, nested, held⟩ := holds
  have correct := Nesting.ofKinds_correct (lexemes.map (·.kind))
  rw [nested, List.length_map] at correct
  have marksFit : marks.size = lexemes.length := correct.marks.size
  have size : scanner.tokens.size = lexemes.length := by
    rw [← Array.length_toList, held,
      Token.length_assemble 0 lexemes _ _ (List.length_map _) marksFit]
  -- A bracket on a stack waits since before this token, so it is a token already.
  have waiting (opener : Nat) (shape : Shape) (outer : List Nat)
      (stack : shape.Open (lexemes.map (·.kind)) lexemes.length (opener :: outer)) :
      opener < scanner.tokens.size := by
    rw [size]
    exact stack.1.before
  obtain ⟨cursor, oldLine, lineStart, mode, depth, curlies, parens, tokens⟩ := scanner
  unfold push
  simp only [cut, ok_bind, size]
  split
  · refine ⟨_, _, _, _, rfl, holds_snoc _ lexemes _ tokens marks ⟨depth, none⟩ marksFit held ?_ rfl⟩
    rw [nested, ← marksFit]
    rfl
  · refine ⟨_, _, _, _, rfl, holds_snoc _ lexemes _ tokens marks ⟨depth, none⟩ marksFit held ?_ rfl⟩
    rw [nested, ← marksFit]
    rfl
  · next opener outer =>
    obtain ⟨linked, amended, same⟩ := amend_eq lexemes _ tokens marks opener (some lexemes.length)
      (waiting opener .curly outer correct.curlies) held
    rw [amended, ok_bind]
    refine ⟨_, _, _, _, rfl, holds_snoc _ lexemes _ linked _ ⟨depth - 1, some opener⟩
      (by rw [Array.size_modify, marksFit]) same ?_ rfl⟩
    rw [nested, ← marksFit]
    rfl
  · next opener outer =>
    obtain ⟨linked, amended, same⟩ := amend_eq lexemes _ tokens marks opener (some lexemes.length)
      (waiting opener .paren outer correct.parens) held
    rw [amended, ok_bind]
    refine ⟨_, _, _, _, rfl, holds_snoc _ lexemes _ linked _ ⟨depth, some opener⟩
      (by rw [Array.size_modify, marksFit]) same ?_ rfl⟩
    rw [nested, ← marksFit]
    rfl
  · next noCurly noParen noPair noPairParen =>
    refine ⟨_, _, _, _, rfl, holds_snoc _ lexemes _ tokens marks ⟨depth, none⟩ marksFit held ?_ rfl⟩
    rw [nested]
    refine step_unlinked depth curlies parens marks kind noCurly noParen ?_ ?_
    · intro closes
      cases curlies with
      | nil => rfl
      | cons opener outer => exact (noPair opener outer closes rfl).elim
    · intro closes
      cases parens with
      | nil => rfl
      | cons opener outer => exact (noPairParen opener outer closes rfl).elim

end Scanner

end CognitiveComplexity
