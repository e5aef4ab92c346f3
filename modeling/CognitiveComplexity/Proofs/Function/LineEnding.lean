import CognitiveComplexity.Proofs.Function.Name
import CognitiveComplexity.Proofs.Function.Respelling
import CognitiveComplexity.Proofs.Text.Boundary
import CognitiveComplexity.Proofs.Token.CarriageReturn

set_option autoImplicit false

namespace CognitiveComplexity

open Byte Bytes

def withReturns (source : String) : String :=
  String.ofList (source.toList.flatMap fun c => if c = '\n' then ['\r', '\n'] else [c])

def Bytes.withoutReturns (text : Bytes) : Bytes := text.filter (· != carriageReturn)

namespace Bytes

theorem newline_mem_encode (c : Char) (member : newline ∈ String.utf8EncodeChar c) : c = '\n' := by
  have whole := utf8EncodeChar_of_ascii c newline member (by decide)
  have feed : String.utf8EncodeChar '\n' = [newline] := by decide
  have decoded (c : Char) := ByteArray.utf8DecodeChar?_utf8EncodeChar_append (b := .empty) (c := c)
  have same := decoded c
  rw [whole, ← feed, decoded '\n'] at same
  exact (Option.some.inj same).symm

theorem ofString_withReturns (source : String) :
    ofString (withReturns source) = Recoding.crlf.bytes (ofString source) := by
  simp only [ofString_eq_flatMap, withReturns, String.toList_ofList]
  induction source.toList with
  | nil => rfl
  | cons c rest ih =>
    simp only [List.flatMap_cons, List.flatMap_append, Recoding.bytes_append, ih]
    congr 1
    by_cases ends : c = '\n'
    · subst ends
      decide
    · have single : newline ∉ String.utf8EncodeChar c := mt (newline_mem_encode c) ends
      simp [ends, Recoding.bytes_crlf _ single]

theorem withoutReturns_bytes (text : Bytes) :
    withoutReturns (Recoding.crlf.bytes text) = withoutReturns text := by
  induction text with
  | nil => rfl
  | cons b rest ih =>
    by_cases ends : b = newline
    · subst ends
      exact congrArg (newline :: ·) ih
    · simp only [withoutReturns, Recoding.bytes_cons, Recoding.byte_crlf b ends,
        List.singleton_append, List.filter_cons] at ih ⊢
      rw [ih]

theorem withoutReturns_of_not_mem (text : Bytes) (none : carriageReturn ∉ text) :
    withoutReturns text = text := by
  refine List.filter_eq_self.mpr fun b member => ?_
  rw [bne_iff_ne]
  rintro rfl
  exact none member

end Bytes

theorem Token.ofBytes_crlf (source : Bytes) (noReturn : carriageReturn ∉ source) :
    (ofBytes (Recoding.crlf.bytes source)).map (respell withoutReturns) = ofBytes source := by
  have anew : (ofBytes (Recoding.crlf.bytes source)).map (respell withoutReturns) =
      (ofBytes source).map (respell withoutReturns) := by
    apply ofBytes_recode
    · intro first rest inside _ _
      apply Extent.heredoc_crlf
      intro returned
      exact noReturn (inside.subset (List.mem_cons_of_mem _ (List.mem_of_mem_drop returned)))
    · exact withoutReturns_bytes
    · intro _ text
      simp [withoutReturns]
  have kept : ∀ token ∈ ofBytes source, respell withoutReturns token = token := by
    intro token member
    obtain ⟨index, found⟩ := List.getElem?_of_mem member
    obtain ⟨lexeme, kind, mark, listed, _, _, rfl⟩ := ofBytes_getElem? source index token found
    have inside := Lexeme.list_subset .html .start source lexeme (List.mem_of_getElem? listed)
    have plain := withoutReturns_of_not_mem lexeme.text (mt (inside carriageReturn) noReturn)
    simp [respell, ofLexeme, plain]
  rw [anew, List.map_congr_left kept, List.map_id'']
  intro token
  rfl

namespace Scope

theorem rename_withoutReturns (source : Bytes) (scope : Scope)
    (member : scope ∈ all (Token.ofBytes source)) : scope.rename withoutReturns = scope := by
  have plain : withoutReturns scope.name = scope.name := by
    apply withoutReturns_of_not_mem
    intro returned
    rcases name_word source scope member with same | word
    · rw [same] at returned
      revert returned
      decide +kernel
    · cases word carriageReturn returned
  simp [rename, plain]

theorem all_withReturns (source : String) (noReturn : carriageReturn ∉ ofString source) :
    (Token.stream (withReturns source)).map (Token.respell withoutReturns) = Token.stream source ∧
      all (Token.stream (withReturns source)) = all (Token.stream source) ∧
      ∀ body : Body, body.score (Token.stream (withReturns source)) =
        body.score (Token.stream source) := by
  unfold Token.stream
  rw [ofString_withReturns]
  have tokens := Token.ofBytes_crlf (ofString source) noReturn
  have functions := all_respell withoutReturns (by decide +kernel)
    (Token.ofBytes (Recoding.crlf.bytes (ofString source)))
  rw [tokens, List.map_congr_left (rename_withoutReturns _), List.map_id'] at functions
  refine ⟨tokens, functions.symm, fun body => ?_⟩
  rw [← score_respell withoutReturns, tokens]

theorem all_withReturns_heredoc :
    let source := "<?php // one\nfunction f() \x7b\n  if (<<<A\n  b\n  A) return 'c\\\nd';\n\x7d\n"
    carriageReturn ∉ ofString source ∧
      (Token.stream (withReturns source)).map (Token.respell withoutReturns) = Token.stream source ∧
      all (Token.stream (withReturns source)) = all (Token.stream source) ∧
      ∀ body : Body, body.score (Token.stream (withReturns source)) =
        body.score (Token.stream source) := by
  intro source
  have noReturn : carriageReturn ∉ ofString source := by decide +kernel
  exact ⟨noReturn, all_withReturns source noReturn⟩

end Scope

end CognitiveComplexity
