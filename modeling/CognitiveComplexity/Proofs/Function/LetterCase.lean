import CognitiveComplexity.Proofs.Function.Respelling

set_option autoImplicit false

namespace CognitiveComplexity

open Byte Bytes

namespace Recoding

def lowering : Recoding := ⟨Byte.lower, lower_lower, false⟩

theorem bytes_lowering (source : Bytes) : lowering.bytes source = Bytes.lower source := by
  have single : lowering.byte = fun b => [Byte.lower b] := by
    funext b
    simp [byte, lowering]
  rw [bytes, single, Bytes.lower, List.map_eq_flatMap]

theorem infix_lower (mark source : Bytes) (fixed : ∀ c ∈ mark, lowering.Fixed c) :
    mark <:+: Bytes.lower source ↔ mark <:+: source := by
  constructor
  · rintro ⟨before, after, split⟩
    obtain ⟨head, _, rfl, heads, _⟩ := List.map_eq_append_iff.mp split.symm
    obtain ⟨_, middle, rfl, _, marked⟩ := List.map_eq_append_iff.mp heads
    rw [← Bytes.lower, ← bytes_lowering, lowering.bytes_eq_iff mark middle fixed] at marked
    exact ⟨_, _, by rw [marked]⟩
  · rintro ⟨before, after, rfl⟩
    have kept : Bytes.lower mark = mark := by
      rw [← bytes_lowering, lowering.bytes_eq_iff mark mark fixed]
    refine ⟨Bytes.lower before, Bytes.lower after, ?_⟩
    simp [Bytes.lower] at kept ⊢
    exact kept.symm

end Recoding

theorem Token.ofBytes_lower (source : Bytes) (plain : ¬ [less, less, less] <:+: source) :
    (ofBytes (Bytes.lower source)).map (respell Bytes.lower) =
      (ofBytes source).map (respell Bytes.lower) := by
  rw [← Recoding.bytes_lowering]
  apply ofBytes_recode
  · rintro first rest inside rfl opens
    have start : [less, less, less] <+: less :: rest := List.cons_prefix_cons.mpr ⟨rfl, opens⟩
    exact (plain (start.isInfix.trans inside.isInfix)).elim
  · intro text
    simp [Recoding.bytes_lowering, Bytes.lower, lower_lower]
  · rintro ⟨⟩

theorem Scope.all_of_letterCase (one other : String)
    (alike : Bytes.lower (ofString one) = Bytes.lower (ofString other))
    (plain : ¬ ofString "<<<" <:+: ofString one) :
    (Token.stream one).map (Token.respell Bytes.lower) =
        (Token.stream other).map (Token.respell Bytes.lower) ∧
      (all (Token.stream one)).map (rename Bytes.lower) =
        (all (Token.stream other)).map (rename Bytes.lower) ∧
      ∀ body : Body, body.score (Token.stream one) = body.score (Token.stream other) := by
  have mark : ofString "<<<" = [less, less, less] := by decide +kernel
  have fixed : ∀ c ∈ [less, less, less], Recoding.lowering.Fixed c := by
    simpa using Recoding.lowering.fixed_of_not_letter less rfl (by decide) (by decide)
  rw [mark] at plain
  have plainOther : ¬ [less, less, less] <:+: ofString other := by
    rwa [← Recoding.infix_lower _ _ fixed, ← alike, Recoding.infix_lower _ _ fixed]
  have same : (Token.stream one).map (Token.respell Bytes.lower) =
      (Token.stream other).map (Token.respell Bytes.lower) := by
    unfold Token.stream
    rw [← Token.ofBytes_lower _ plain, alike, Token.ofBytes_lower _ plainOther]
  have kept : Bytes.lower anonymous = anonymous := by decide +kernel
  exact ⟨same, all_of_respell Bytes.lower kept _ _ same⟩

theorem Scope.all_of_letterCase_fib :
    let one := "<?PHP FUNCTION Fib($N) \x7b IF ($N < 2) RETURN 'A'; \x7d"
    let other := "<?php function fib($n) \x7b if ($n < 2) return 'a'; \x7d"
    Bytes.lower (ofString one) = Bytes.lower (ofString other) ∧
      ¬ ofString "<<<" <:+: ofString one ∧
      (Token.stream one).map (Token.respell Bytes.lower) =
        (Token.stream other).map (Token.respell Bytes.lower) ∧
      (all (Token.stream one)).map (rename Bytes.lower) =
        (all (Token.stream other)).map (rename Bytes.lower) ∧
      ∀ body : Body, body.score (Token.stream one) = body.score (Token.stream other) := by
  intro one other
  have alike : Bytes.lower (ofString one) = Bytes.lower (ofString other) := by decide +kernel
  have plain : ¬ ofString "<<<" <:+: ofString one := by decide +kernel
  exact ⟨alike, plain, all_of_letterCase one other alike plain⟩

end CognitiveComplexity
