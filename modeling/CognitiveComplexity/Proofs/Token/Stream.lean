import CognitiveComplexity.Token.Stream
import CognitiveComplexity.Proofs.Token.Lexeme

set_option autoImplicit false

namespace CognitiveComplexity

namespace Token

theorem assemble_getElem? (position index : Nat) (lexemes : List Lexeme) (kinds : List Kind)
    (marks : List Mark) :
    (assemble position lexemes kinds marks)[index]? =
      lexemes[index]?.bind fun lexeme => kinds[index]?.bind fun kind =>
        marks[index]?.map (ofLexeme lexeme kind (position + index)) := by
  induction lexemes generalizing position index kinds marks with
  | nil => rfl
  | cons lexeme lexemes ih =>
    rcases kinds with _ | ⟨kind, kinds⟩
    · cases index <;> simp [assemble]
    · rcases marks with _ | ⟨mark, marks⟩
      · cases index <;> simp [assemble]
      · cases index with
        | zero => simp [assemble]
        | succ index =>
          simp only [assemble, List.getElem?_cons_succ, ih]
          rw [show position + 1 + index = position + (index + 1) by omega]

theorem length_assemble (position : Nat) (lexemes : List Lexeme) (kinds : List Kind)
    (marks : List Mark) (kindsFit : kinds.length = lexemes.length)
    (marksFit : marks.length = lexemes.length) :
    (assemble position lexemes kinds marks).length = lexemes.length := by
  induction lexemes generalizing position kinds marks with
  | nil => rfl
  | cons lexeme lexemes ih =>
    rcases kinds with _ | ⟨kind, kinds⟩
    · cases kindsFit
    · rcases marks with _ | ⟨mark, marks⟩
      · cases marksFit
      · simp only [assemble, List.length_cons, ih (position + 1) kinds marks
          (Nat.succ.inj kindsFit) (Nat.succ.inj marksFit)]

theorem kinds_assemble (position : Nat) (lexemes : List Lexeme) (kinds : List Kind)
    (marks : List Mark) (kindsFit : kinds.length = lexemes.length)
    (marksFit : marks.length = lexemes.length) :
    (assemble position lexemes kinds marks).map (·.kind) = kinds := by
  induction lexemes generalizing position kinds marks with
  | nil => exact (List.length_eq_zero_iff.mp kindsFit).symm
  | cons lexeme lexemes ih =>
    rcases kinds with _ | ⟨kind, kinds⟩
    · cases kindsFit
    · rcases marks with _ | ⟨mark, marks⟩
      · cases marksFit
      · rw [assemble, List.map_cons, ih (position + 1) kinds marks (Nat.succ.inj kindsFit)
          (Nat.succ.inj marksFit)]
        rfl

theorem texts_assemble (position : Nat) (lexemes : List Lexeme) (kinds : List Kind)
    (marks : List Mark) (kindsFit : kinds.length = lexemes.length)
    (marksFit : marks.length = lexemes.length) :
    (assemble position lexemes kinds marks).map (·.text) = lexemes.map (·.text) := by
  induction lexemes generalizing position kinds marks with
  | nil => rfl
  | cons lexeme lexemes ih =>
    rcases kinds with _ | ⟨kind, kinds⟩
    · cases kindsFit
    · rcases marks with _ | ⟨mark, marks⟩
      · cases marksFit
      · rw [assemble, List.map_cons, List.map_cons, ih (position + 1) kinds marks
          (Nat.succ.inj kindsFit) (Nat.succ.inj marksFit)]
        rfl

variable (source : Bytes)

theorem ofBytes_eq_assemble :
    ofBytes source = assemble 0 (Lexeme.ofSource source) (Lexeme.kinds (Lexeme.ofSource source))
      (Nesting.ofKinds (Lexeme.kinds (Lexeme.ofSource source))).marks.toList := by
  rw [← Lexeme.nesting_kinds]
  rfl

theorem length_kinds :
    (Lexeme.kinds (Lexeme.ofSource source)).length = (Lexeme.ofSource source).length :=
  Lexeme.length_kindsFrom false _

theorem length_marks :
    (Nesting.ofKinds (Lexeme.kinds (Lexeme.ofSource source))).marks.toList.length =
      (Lexeme.ofSource source).length := by
  rw [Array.length_toList, (Nesting.ofKinds_correct _).marks.size, length_kinds]

theorem length_ofBytes : (ofBytes source).length = (Lexeme.ofSource source).length := by
  rw [ofBytes_eq_assemble]
  exact length_assemble 0 _ _ _ (length_kinds source) (length_marks source)

theorem ofBytes_getElem? (index : Nat) (token : Token)
    (found : (ofBytes source)[index]? = some token) :
    ∃ lexeme kind mark, (Lexeme.ofSource source)[index]? = some lexeme ∧
      (Lexeme.kinds (Lexeme.ofSource source))[index]? = some kind ∧
      (Nesting.ofKinds (Lexeme.kinds (Lexeme.ofSource source))).marks[index]? = some mark ∧
      token = ofLexeme lexeme kind index mark := by
  rw [ofBytes_eq_assemble, assemble_getElem?] at found
  simp only [Option.bind_eq_some_iff, Option.map_eq_some_iff, Array.getElem?_toList,
    Nat.zero_add] at found
  obtain ⟨lexeme, foundLexeme, kind, foundKind, mark, foundMark, same⟩ := found
  exact ⟨lexeme, kind, mark, foundLexeme, foundKind, foundMark, same.symm⟩

theorem kinds_ofBytes :
    (ofBytes source).map (·.kind) = Lexeme.kinds (Lexeme.ofSource source) := by
  rw [ofBytes_eq_assemble]
  exact kinds_assemble 0 _ _ _ (length_kinds source) (length_marks source)

theorem texts_ofBytes :
    (ofBytes source).map (·.text) = (Lexeme.ofSource source).map (·.text) := by
  rw [ofBytes_eq_assemble]
  exact texts_assemble 0 _ _ _ (length_kinds source) (length_marks source)

end Token

end CognitiveComplexity
