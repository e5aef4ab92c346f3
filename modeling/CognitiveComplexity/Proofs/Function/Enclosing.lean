import CognitiveComplexity.Proofs.Function.Relocation
import CognitiveComplexity.Proofs.Score.Step

set_option autoImplicit false

namespace CognitiveComplexity

namespace Scan

-- How much higher the outer scan measures a level than the inner one.
def shift (inner outer : Scan) : Int :=
  (inner.baseLevel : Int) - outer.baseLevel + (if inner.state.isInside = true then 1 else 0) -
    if outer.state.isInside = true then 1 else 0

/-- Two scans of the same tokens: the bonus that the inner one may gain over the outer one at the next
token is one that the outer one is ahead already. -/
structure Covered (inner outer : Scan) : Prop where
  deeper : outer.baseLevel < inner.baseLevel
  state : inner.state.isInside = true → outer.state.isInside = true
  score : inner.score ≤ outer.score
  paid : outer.previous ≤ inner.previous + shift inner outer ∨ inner.score < outer.score

theorem shift_nonneg (inner outer : Scan) (deeper : outer.baseLevel < inner.baseLevel) :
    0 ≤ shift inner outer := by
  unfold shift
  split_ifs <;> omega

section Step

variable {inner outer : Scan} (token : Token) (covered : Covered inner outer)

include covered

theorem next_covered :
    (inner.feedToken token).state.isInside = true →
      (outer.feedToken token).state.isInside = true := by
  have before := covered.state
  rw [feedToken_state, feedToken_state, next_isInside, next_isInside]
  tauto

-- The scans are apart only until the next `try` or `catch`.
theorem shift_le_next :
    shift inner outer ≤ shift (inner.feedToken token) (outer.feedToken token) := by
  have before := covered.state
  unfold shift
  simp only [feedToken_baseLevel, feedToken_state, next_isInside]
  by_cases tries : token.kind = .tryWord
  · simp only [tries, true_or, if_true]
    grind
  · by_cases catches : token.kind = .catchWord
    · simp only [catches, ne_eq, not_true_eq_false, false_and, or_false]
      grind
    · simp only [tries, catches, ne_eq, not_false_eq_true, true_and, false_or, Int.le_refl]

end Step

theorem measure_shift (inner outer : Scan) (level : Nat) (fits : level < 0x8000000000000000)
    (innerFits : inner.baseLevel < 0x8000000000000000)
    (outerFits : outer.baseLevel < 0x8000000000000000) :
    measure outer.baseLevel outer.state level =
      measure inner.baseLevel inner.state level + shift inner outer := by
  rw [measure_exact _ _ _ outerFits fits, measure_exact _ _ _ innerFits fits]
  unfold shift
  omega

theorem bonus_shift (lower upper measured shift : Int) (nonneg : 0 ≤ shift)
    (close : upper ≤ lower + shift) : bonus lower measured ≤ bonus upper (measured + shift) := by
  unfold bonus
  split_ifs <;> omega

theorem feedToken_covered {inner outer : Scan} (token : Token) (covered : Covered inner outer)
    (innerFits : inner.baseLevel < 0x8000000000000000)
    (levelFits : token.level < 0x8000000000000000) :
    Covered (inner.feedToken token) (outer.feedToken token) := by
  have deeper : (outer.feedToken token).baseLevel < (inner.feedToken token).baseLevel := by
    simpa using covered.deeper
  have state := next_covered token covered
  have nonneg := shift_nonneg _ _ deeper
  have grows := shift_le_next token covered
  cases counts : token.kind.isIncreasing
  · refine ⟨deeper, state, ?_, ?_⟩
    · simpa [feedToken_neutral _ token counts] using covered.score
    · rcases covered.paid with close | ahead
      · left
        simpa [feedToken_neutral _ token counts] using
          Int.le_trans close (Int.add_le_add_left grows inner.previous)
      · right
        simpa [feedToken_neutral _ token counts] using ahead
  · have previous : (outer.feedToken token).previous =
        (inner.feedToken token).previous + shift (inner.feedToken token) (outer.feedToken token) := by
      rw [feedToken_previous outer token counts, feedToken_previous inner token counts]
      apply measure_shift _ _ _ levelFits
      · simpa using innerFits
      · simpa using Nat.lt_trans covered.deeper innerFits
    refine ⟨deeper, state, ?_, .inl previous.le⟩
    rw [feedToken_score inner token counts, feedToken_score outer token counts, previous]
    have score := covered.score
    rcases covered.paid with close | ahead
    · have kept := bonus_shift inner.previous outer.previous (inner.feedToken token).previous _ nonneg
        (Int.le_trans close (Int.add_le_add_left grows inner.previous))
      omega
    · have most := bonus_le_one inner.previous (inner.feedToken token).previous
      omega

theorem scan_covered {inner outer : Scan} (tokens : List Token) (covered : Covered inner outer)
    (innerFits : inner.baseLevel < 0x8000000000000000)
    (levelsFit : ∀ token ∈ tokens, token.level < 0x8000000000000000) :
    Covered (tokens.foldl feedToken inner) (tokens.foldl feedToken outer) := by
  induction tokens generalizing inner outer with
  | nil => exact covered
  | cons token rest ih =>
    apply ih
    · exact feedToken_covered token covered innerFits (levelsFit token List.mem_cons_self)
    · simpa using innerFits
    · exact fun later member => levelsFit later (List.mem_cons_of_mem _ member)

-- Nothing is compared with a depth before a token has counted.
theorem previous_of_score_zero (baseLevel : Nat) (tokens : List Token)
    (nothing : (tokens.foldl feedToken (start baseLevel)).score = 0) :
    (tokens.foldl feedToken (start baseLevel)).previous = 0 := by
  induction tokens using List.reverseRecOn with
  | nil => rfl
  | append_singleton tokens token ih =>
    rw [List.foldl_append, List.foldl_cons, List.foldl_nil] at nothing ⊢
    cases counts : token.kind.isIncreasing
    · rw [feedToken_neutral _ token counts] at nothing ⊢
      exact ih nothing
    · rw [feedToken_score _ token counts] at nothing
      omega

theorem covered_at_start (tokens : List Token) (innerLevel outerLevel : Nat)
    (deeper : outerLevel < innerLevel) :
    Covered (start innerLevel) (tokens.foldl feedToken (start outerLevel)) := by
  have nothing := previous_of_score_zero outerLevel tokens
  have base := scan_baseLevel (start outerLevel) tokens
  generalize tokens.foldl feedToken (start outerLevel) = outer at nothing base
  have lower : outer.baseLevel < (start innerLevel).baseLevel := by
    rw [base]
    exact deeper
  refine ⟨lower, nofun, Nat.zero_le _, ?_⟩
  rcases Nat.eq_zero_or_pos outer.score with zero | positive
  · left
    rw [nothing zero]
    exact Int.add_nonneg (Int.le_refl 0) (shift_nonneg _ _ lower)
  · exact .inr positive

theorem score_le_of_infix {part whole : List Token} (inside : part <:+: whole)
    (innerLevel outerLevel : Nat) (deeper : outerLevel < innerLevel)
    (innerFits : innerLevel < 0x8000000000000000)
    (levelsFit : ∀ token ∈ part, token.level < 0x8000000000000000) :
    (part.foldl feedToken (start innerLevel)).score ≤
      (whole.foldl feedToken (start outerLevel)).score := by
  obtain ⟨before, behind, rfl⟩ := inside
  rw [List.foldl_append, List.foldl_append]
  have entered := covered_at_start before innerLevel outerLevel deeper
  have left := scan_covered part entered innerFits levelsFit
  exact Nat.le_trans left.score (scan_score_le _ behind)

end Scan

theorem Body.tokens_infix (inner outer : Body) (stream : List Token) (after : outer.start < inner.start)
    (before : inner.stop < outer.stop) : inner.tokens stream <:+: outer.tokens stream := by
  have cut : inner.tokens stream =
      ((outer.tokens stream).drop (inner.start - outer.start)).take (inner.stop - (inner.start + 1)) := by
    rw [tokens, tokens, List.drop_take, List.take_take, List.drop_drop]
    congr 2 <;> omega
  rw [cut]
  exact (List.take_prefix _ _).isInfix.trans (List.drop_suffix _ _).isInfix

namespace Scope

/-- A function scores no less than a function inside its body. A text in memory has fewer than `2 ^ 63`
bytes, so no depth leaves 64 bits. -/
theorem score_le_enclosing (source : String) (fits : (Bytes.ofString source).length < 0x8000000000000000)
    (outer inner : Scope) (outerFound : outer ∈ all (Token.stream source))
    (innerFound : inner ∈ all (Token.stream source)) (after : outer.body.start < inner.body.start)
    (before : inner.body.start < outer.body.stop) :
    inner.body.score (Token.stream source) ≤ outer.body.score (Token.stream source) := by
  unfold Token.stream at *
  generalize Bytes.ofString source = bytes at *
  have around := at_wellFormed bytes _ outer ((mem_all bytes outer).mp outerFound)
  have inside := at_wellFormed bytes _ inner ((mem_all bytes inner).mp innerFound)
  have ordered := inside.start_lt
  have within : inner.body.stop < outer.body.stop := by
    have apart := bodies_disjoint_or_nested bytes outer inner outerFound innerFound
    omega
  -- The bracket that opens the inner body is deeper than the outer function.
  obtain ⟨opener, found, _, _, level⟩ := inside.opener
  have deeper := around.deeper inner.body.start opener after before found
  have levelFits := level_lt_length bytes inner.body.start opener found
  apply Scan.score_le_of_infix (inner.body.tokens_infix outer.body _ after within)
  · omega
  · omega
  · intro token member
    exact Nat.lt_trans (level_in_body bytes inner.body token member) fits

-- A function inside a `try` block, behind a loop.
def guardedFunction : String :=
  "<?php function f() \x7b try \x7b if ($a) \x7b while ($b) \x7b \x7d \x7d " ++
    "function g() \x7b if ($c) \x7b if ($d) \x7b \x7d \x7d \x7d \x7d catch (E $e) \x7b \x7d \x7d"

theorem score_le_enclosing_guarded :
    let stream := Token.stream guardedFunction
    let outer : Scope := ⟨Bytes.ofString "f", 1, 5, 46, 0⟩
    let inner : Scope := ⟨Bytes.ofString "g", 20, 24, 37, 2⟩
    all stream = [outer, inner] ∧ inner.body.score stream = 3 ∧ 3 ≤ outer.body.score stream := by
  intro stream outer inner
  have found : all stream = [outer, inner] := by decide +kernel
  have score : inner.body.score stream = 3 := by decide +kernel
  have outerFound : outer ∈ all stream := by simp [found]
  have innerFound : inner ∈ all stream := by simp [found]
  have above := score_le_enclosing guardedFunction (by decide +kernel) outer inner outerFound
    innerFound (by decide) (by decide)
  exact ⟨found, score, score ▸ above⟩

end Scope

end CognitiveComplexity
