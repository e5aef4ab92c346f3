import CognitiveComplexity.Proofs.Function.Scope
import CognitiveComplexity.Proofs.Token.Word

set_option autoImplicit false

namespace CognitiveComplexity

namespace Lexeme

def Named (kind : Kind) (lexeme : Lexeme) : Prop := kind = .identifier → Bytes.Word lexeme.text

theorem kindIn_named (afterIntroducer : Bool) (lexeme : Lexeme) (rest : List Lexeme)
    (named : kindIn afterIntroducer lexeme rest = .identifier) :
    lexeme.isWord = true ∨ lexeme.kind = .identifier := by
  unfold kindIn at named
  split_ifs at named with name closure
  · exact .inl (Bool.and_eq_true_iff.mp name).2
  · exact .inr named

theorem kindsFrom_named (mode : Mode) (place : Place) (bytes : Bytes) (afterIntroducer : Bool)
    (outside : mode = .html → afterIntroducer = false) :
    List.Forall₂ Named (kindsFrom afterIntroducer (list mode place bytes))
      (list mode place bytes) := by
  refine kindsFrom_forall Named ?_ ?_ mode place bytes afterIntroducer outside
  · intro lexeme markup named
    rcases markup with tag | tag <;> cases tag.symm.trans named
  · intro lexeme inside afterIntroducer rest named
    rcases inside_cases lexeme inside with ⟨word, _⟩ | ⟨_, plain, _, noName⟩
    · simp only [Token.readAsWord, Bool.and_eq_true, List.all_eq_true] at word
      exact word.2
    · rcases kindIn_named _ _ _ named with starts | same
      · cases plain.symm.trans starts
      · exact (noName same).elim

end Lexeme

namespace Token

theorem word_of_identifier (source : Bytes) (token : Token) (member : token ∈ ofBytes source)
    (named : token.kind = .identifier) : Bytes.Word token.text := by
  obtain ⟨index, found⟩ := List.mem_iff_getElem?.mp member
  obtain ⟨lexeme, kind, mark, foundLexeme, foundKind, _, rfl⟩ :=
    ofBytes_getElem? source index token found
  have words := Lexeme.kindsFrom_named .html .start source false fun _ => rfl
  obtain ⟨withinLexemes, rfl⟩ := List.getElem?_eq_some_iff.mp foundLexeme
  obtain ⟨withinKinds, rfl⟩ := List.getElem?_eq_some_iff.mp foundKind
  exact words.get withinKinds withinLexemes named

end Token

namespace Scope

theorem nameOf_cases (rest : List Token) :
    nameOf rest = anonymous ∨ ∃ token ∈ rest, token.kind = .identifier ∧ nameOf rest = token.text := by
  unfold nameOf
  cases found : rest.find? fun token => token.kind != .comment && token.kind != .bitwiseAnd with
  | none => exact .inl rfl
  | some token =>
    by_cases named : token.kind = .identifier
    · exact .inr ⟨token, List.mem_of_find?_eq_some found, named, by simp [named]⟩
    · exact .inl (by simp [named])

theorem name_word (source : Bytes) (scope : Scope) (member : scope ∈ all (Token.ofBytes source)) :
    scope.name = anonymous ∨ Bytes.Word scope.name := by
  obtain ⟨position, _, found⟩ := List.mem_filterMap.mp member
  obtain ⟨_, _, _, _, _, _, _, _, _, _, _, rfl⟩ := (at_eq_some _ _ _).mp found
  rcases nameOf_cases ((Token.ofBytes source).drop (position + 1)) with none | ⟨token, here, named, same⟩
  · exact .inl none
  · refine .inr ?_
    rw [same]
    exact Token.word_of_identifier source token (List.mem_of_mem_drop here) named

end Scope

end CognitiveComplexity
