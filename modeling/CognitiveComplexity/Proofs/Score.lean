import CognitiveComplexity.Violation
import Mathlib.Data.List.Induction

set_option autoImplicit false

namespace CognitiveComplexity

namespace Scan

def endsInTry (tokens : List Token) : Prop :=
  ((tokens.map (·.kind)).filter fun kind => kind = .tryWord ∨ kind = .catchWord).getLast? =
    some .tryWord

instance (tokens : List Token) : Decidable (endsInTry tokens) :=
  inferInstanceAs (Decidable (_ = _))

def counted (tokens : List Token) : List Nat :=
  (List.range tokens.length).filter fun index => tokens[index]?.any (·.kind.isIncreasing)

def depthAt (baseLevel : Nat) (tokens : List Token) (index : Nat) : Int :=
  ((tokens[index]?.map (·.level)).getD 0 : Nat) - baseLevel -
    if endsInTry (tokens.take (index + 1)) then 1 else 0

def depths (baseLevel : Nat) (tokens : List Token) : List Int :=
  (counted tokens).map (depthAt baseLevel tokens)

/-- How many depths are above one and above the depth before them, the first of which is compared
with zero. -/
def deepenings (depths : List Int) : Nat :=
  ((0 :: depths).zip depths).countP fun (before, depth) => 1 < depth ∧ before < depth

def exactScore (baseLevel : Nat) (tokens : List Token) : Nat :=
  (counted tokens).length + deepenings (depths baseLevel tokens)

theorem endsInTry_snoc (tokens : List Token) (token : Token) :
    endsInTry (tokens ++ [token]) ↔
      token.kind = .tryWord ∨ (token.kind ≠ .catchWord ∧ endsInTry tokens) := by
  unfold endsInTry
  rw [List.map_append, List.filter_append]
  by_cases tries : token.kind = .tryWord
  · simp [tries]
  · by_cases catches : token.kind = .catchWord
    · simp [catches]
    · simp [tries, catches]

theorem counted_snoc (tokens : List Token) (token : Token) :
    counted (tokens ++ [token]) =
      counted tokens ++ if token.kind.isIncreasing then [tokens.length] else [] := by
  unfold counted
  rw [List.length_append, List.length_singleton, List.range_succ, List.filter_append]
  congr 1
  · apply List.filter_congr
    intro index member
    rw [List.getElem?_append_left (List.mem_range.mp member)]
  · cases increasing : token.kind.isIncreasing <;> simp [increasing]

theorem depths_snoc (baseLevel : Nat) (tokens : List Token) (token : Token) :
    depths baseLevel (tokens ++ [token]) =
      depths baseLevel tokens ++ if token.kind.isIncreasing then
        [(token.level : Int) - baseLevel - if endsInTry (tokens ++ [token]) then 1 else 0]
      else [] := by
  unfold depths
  rw [counted_snoc, List.map_append]
  congr 1
  · apply List.map_congr_left
    intro index member
    have within : index < tokens.length := List.mem_range.mp (List.mem_filter.mp member).1
    unfold depthAt
    rw [List.getElem?_append_left within, List.take_append_of_le_length within]
  · split
    · simp [depthAt, List.take_of_length_le]
    · rfl

theorem zip_snoc (first last : Int) (items : List Int) :
    (first :: (items ++ [last])).zip (items ++ [last]) =
      (first :: items).zip items ++ [((first :: items).getLast (List.cons_ne_nil _ _), last)] := by
  induction items generalizing first with
  | nil => rfl
  | cons item items ih =>
    rw [List.cons_append, List.zip_cons_cons, ih item]
    rfl

theorem deepenings_snoc (items : List Int) (last : Int) :
    deepenings (items ++ [last]) = deepenings items +
      if 1 < last ∧ (0 :: items).getLast (List.cons_ne_nil _ _) < last then 1 else 0 := by
  unfold deepenings
  rw [zip_snoc, List.countP_append, List.countP_singleton]
  simp

theorem next_isInside (state : TryState) (kind : Kind) :
    (state.next kind).isInside = true ↔
      kind = .tryWord ∨ (kind ≠ .catchWord ∧ state.isInside = true) := by
  cases state <;> cases kind <;> decide

-- What 64 bits hold with a sign.
def Signed (value : Int) : Prop := -0x8000000000000000 ≤ value ∧ value < 0x8000000000000000

theorem signed_difference (baseLevel level : Nat) (baseFits : baseLevel < 0x8000000000000000)
    (levelFits : level < 0x8000000000000000) :
    Signed ((level : Int) - baseLevel) ∧ Signed ((level : Int) - baseLevel - 1) := by
  unfold Signed
  omega

theorem measure_exact (baseLevel level : Nat) (state : TryState)
    (baseFits : baseLevel < 0x8000000000000000) (levelFits : level < 0x8000000000000000) :
    measure baseLevel state level =
      (level : Int) - baseLevel - if state.isInside = true then 1 else 0 := by
  obtain ⟨plain, less⟩ := signed_difference baseLevel level baseFits levelFits
  unfold Signed at plain less
  unfold measure
  have size : ((wordCount : Nat) : Int) = 0x10000000000000000 := rfl
  apply Int.bmod_eq_of_le_mul_two
  · split <;> omega
  · split <;> omega

structure Exact (baseLevel : Nat) (tokens : List Token) (scan : Scan) : Prop where
  base : scan.baseLevel = baseLevel
  state : scan.state.isInside = true ↔ endsInTry tokens
  previous : scan.previous = (0 :: depths baseLevel tokens).getLast (List.cons_ne_nil _ _)
  score : scan.score = exactScore baseLevel tokens

theorem start_exact (baseLevel : Nat) : Exact baseLevel [] (start baseLevel) := by
  refine ⟨rfl, ?_, rfl, rfl⟩
  simp [start, endsInTry, TryState.isInside]

theorem feedToken_exact (baseLevel : Nat) (tokens : List Token) (scan : Scan) (token : Token)
    (held : Exact baseLevel tokens scan) (baseFits : baseLevel < 0x8000000000000000)
    (levelFits : token.level < 0x8000000000000000) :
    Exact baseLevel (tokens ++ [token]) (scan.feedToken token) := by
  -- The state moves before the level is measured, so the token itself decides along.
  have inside : (scan.state.next token.kind).isInside = true ↔ endsInTry (tokens ++ [token]) := by
    rw [next_isInside, endsInTry_snoc, held.state]
  have measured :=
    measure_exact baseLevel token.level (scan.state.next token.kind) baseFits levelFits
  rw [if_congr inside rfl rfl] at measured
  unfold feedToken feed
  by_cases increasing : token.kind.isIncreasing = true
  · have deeper := depths_snoc baseLevel tokens token
    have more := counted_snoc tokens token
    rw [if_pos increasing] at deeper more
    simp only [if_pos increasing, held.base, measured]
    generalize (token.level : Int) - baseLevel - _ = depth at deeper
    refine ⟨rfl, inside, ?_, ?_⟩
    · simp only [deeper]
      rw [List.getLast_cons (by simp), List.getLast_concat]
    · simp only [exactScore, deeper, more, deepenings_snoc, held.score, held.previous,
        List.length_append, List.length_singleton, ← Bool.decide_and]
      by_cases nested : 1 < depth ∧
          (0 :: depths baseLevel tokens).getLast (List.cons_ne_nil _ _) < depth
      · rw [decide_eq_true nested, if_pos nested, Bool.toNat_true]
        omega
      · rw [decide_eq_false nested, if_neg nested, Bool.toNat_false]
        omega
  -- A token that does not count leaves everything but the state.
  · have same := depths_snoc baseLevel tokens token
    have fewer := counted_snoc tokens token
    rw [if_neg increasing, List.append_nil] at same fewer
    rw [if_neg increasing]
    refine ⟨held.base, inside, ?_, ?_⟩
    · simp only [same, held.previous]
    · simp only [exactScore, same, fewer, held.score]

theorem scan_exact (baseLevel : Nat) (tokens : List Token)
    (baseFits : baseLevel < 0x8000000000000000)
    (levelsFit : ∀ token ∈ tokens, token.level < 0x8000000000000000) :
    Exact baseLevel tokens (tokens.foldl feedToken (start baseLevel)) := by
  induction tokens using List.reverseRecOn with
  | nil => exact start_exact baseLevel
  | append_singleton tokens token ih =>
    rw [List.foldl_append]
    refine feedToken_exact baseLevel tokens _ token (ih fun earlier member => ?_) baseFits ?_
    · exact levelsFit earlier (List.mem_append_left _ member)
    · exact levelsFit token (List.mem_append_right _ (List.mem_singleton_self token))

-- A function with a loop inside `try` and one inside `catch`.
def guardedLoops : String :=
  "<?php function f() \x7b try \x7b if ($a) \x7b while ($b) \x7b \x7d \x7d \x7d " ++
    "catch (E $e) \x7b do \x7b \x7d while (1); \x7d \x7d"

end Scan

end CognitiveComplexity
