import CognitiveComplexity.Score
import Mathlib.Tactic.Common

set_option autoImplicit false

namespace CognitiveComplexity

namespace Scan

-- One for a depth that is above one and above the depth before it.
def bonus (previous measured : Int) : Nat := if 1 < measured ∧ previous < measured then 1 else 0

theorem bonus_le_one (previous measured : Int) : bonus previous measured ≤ 1 := by
  unfold bonus
  split <;> omega

theorem feedToken_neutral (scan : Scan) (token : Token) (neutral : token.kind.isIncreasing = false) :
    scan.feedToken token = { scan with state := scan.state.next token.kind } := by
  simp [feedToken, feed, neutral]

theorem feedToken_counted (scan : Scan) (token : Token) (counts : token.kind.isIncreasing = true) :
    scan.feedToken token =
      { scan with
        score := scan.score + 1 +
          bonus scan.previous (measure scan.baseLevel (scan.state.next token.kind) token.level)
        previous := measure scan.baseLevel (scan.state.next token.kind) token.level
        state := scan.state.next token.kind } := by
  simp only [feedToken, feed, counts, if_true, bonus, ← Bool.decide_and]
  split <;> simp [*]

@[simp] theorem feedToken_baseLevel (scan : Scan) (token : Token) :
    (scan.feedToken token).baseLevel = scan.baseLevel := by
  cases counts : token.kind.isIncreasing
  · rw [feedToken_neutral scan token counts]
  · rw [feedToken_counted scan token counts]

@[simp] theorem feedToken_state (scan : Scan) (token : Token) :
    (scan.feedToken token).state = scan.state.next token.kind := by
  cases counts : token.kind.isIncreasing
  · rw [feedToken_neutral scan token counts]
  · rw [feedToken_counted scan token counts]

theorem feedToken_previous (scan : Scan) (token : Token) (counts : token.kind.isIncreasing = true) :
    (scan.feedToken token).previous =
      measure (scan.feedToken token).baseLevel (scan.feedToken token).state token.level := by
  rw [feedToken_counted scan token counts]

theorem feedToken_score (scan : Scan) (token : Token) (counts : token.kind.isIncreasing = true) :
    (scan.feedToken token).score =
      scan.score + 1 + bonus scan.previous (scan.feedToken token).previous := by
  rw [feedToken_counted scan token counts]

theorem feedToken_score_le (scan : Scan) (token : Token) :
    scan.score ≤ (scan.feedToken token).score := by
  cases counts : token.kind.isIncreasing
  · simp [feedToken_neutral scan token counts]
  · rw [feedToken_score scan token counts]
    omega

theorem scan_score_le (scan : Scan) (tokens : List Token) :
    scan.score ≤ (tokens.foldl feedToken scan).score := by
  induction tokens generalizing scan with
  | nil => exact Nat.le_refl _
  | cons token rest ih => exact Nat.le_trans (feedToken_score_le scan token) (ih _)

theorem scan_baseLevel (scan : Scan) (tokens : List Token) :
    (tokens.foldl feedToken scan).baseLevel = scan.baseLevel := by
  induction tokens generalizing scan with
  | nil => rfl
  | cons token rest ih => rw [List.foldl_cons, ih, feedToken_baseLevel]

def raise (extra : Nat) (scan : Scan) : Scan := { scan with score := scan.score + extra }

-- The score so far is carried along and decides nothing.
theorem feedToken_raise (extra : Nat) (scan : Scan) (token : Token) :
    (scan.raise extra).feedToken token = (scan.feedToken token).raise extra := by
  cases counts : token.kind.isIncreasing
  · simp [feedToken_neutral _ token counts, raise]
  · simp only [feedToken_counted _ token counts, raise, mk.injEq, true_and, and_true]
    omega

theorem scan_raise (extra : Nat) (scan : Scan) (tokens : List Token) :
    tokens.foldl feedToken (scan.raise extra) = (tokens.foldl feedToken scan).raise extra :=
  List.foldl_hom (raise extra) (feedToken_raise extra)

-- A depth between two others takes no bonus away from the way down, and adds at most one to it.
theorem bonus_between (first between last : Int) :
    bonus first last ≤ bonus first between + bonus between last ∧
      bonus first between + bonus between last ≤ bonus first last + 1 := by
  unfold bonus
  split_ifs <;> omega

-- The scan right behind one more token that counts, at some depth.
def interposed (measured : Int) (scan : Scan) : Scan :=
  { scan with score := scan.score + 1 + bonus scan.previous measured, previous := measured }

theorem feedToken_interposed_neutral (measured : Int) (scan : Scan) (token : Token)
    (neutral : token.kind.isIncreasing = false) :
    (scan.interposed measured).feedToken token = (scan.feedToken token).interposed measured := by
  simp [feedToken_neutral _ token neutral, interposed]

-- From the next token that counts on, both scans compare with the same depth.
theorem feedToken_interposed_counted (measured : Int) (scan : Scan) (token : Token)
    (counts : token.kind.isIncreasing = true) :
    ∃ extra, (extra = 1 ∨ extra = 2) ∧
      (scan.interposed measured).feedToken token = (scan.feedToken token).raise extra := by
  simp only [feedToken_counted _ token counts, interposed, raise, mk.injEq, true_and, and_true]
  generalize measure scan.baseLevel (scan.state.next token.kind) token.level = depth
  obtain ⟨least, most⟩ := bonus_between scan.previous measured depth
  refine ⟨1 + (bonus scan.previous measured + bonus measured depth) - bonus scan.previous depth,
    ?_, ?_⟩
  · omega
  · omega

theorem scan_interposed (measured : Int) (scan : Scan) (tokens : List Token) :
    ∃ extra, (extra = 1 ∨ extra = 2) ∧
      (tokens.foldl feedToken (scan.interposed measured)).score =
        (tokens.foldl feedToken scan).score + extra := by
  induction tokens generalizing scan with
  | nil =>
    have most := bonus_le_one scan.previous measured
    exact ⟨1 + bonus scan.previous measured, by omega, Nat.add_assoc _ _ _⟩
  | cons token rest ih =>
    rw [List.foldl_cons, List.foldl_cons]
    cases counts : token.kind.isIncreasing
    · rw [feedToken_interposed_neutral measured scan token counts]
      exact ih (scan.feedToken token)
    · obtain ⟨extra, few, same⟩ := feedToken_interposed_counted measured scan token counts
      rw [same, scan_raise]
      exact ⟨extra, few, rfl⟩

theorem next_stays (state : TryState) (kind : Kind) (noTry : kind ≠ .tryWord)
    (noCatch : kind ≠ .catchWord) : state.next kind = state := by
  fun_cases TryState.next state kind with
  | case1 => exact absurd rfl noTry
  | case2 => exact absurd rfl noCatch
  | case3 => rfl

/-- One more token that counts, other than a `catch`, raises the score by one or two, wherever it
stands. -/
theorem score_insert (baseLevel : Nat) (before behind : List Token) (token : Token)
    (counts : token.kind.isIncreasing = true) (noCatch : token.kind ≠ .catchWord) :
    let score := fun (tokens : List Token) => (tokens.foldl feedToken (start baseLevel)).score
    score (before ++ [token] ++ behind) = score (before ++ behind) + 1 ∨
      score (before ++ [token] ++ behind) = score (before ++ behind) + 2 := by
  intro score
  have noTry : token.kind ≠ .tryWord := by
    intro tries
    rw [tries] at counts
    cases counts
  generalize reached : before.foldl feedToken (start baseLevel) = scan
  have fed : scan.feedToken token =
      scan.interposed (measure scan.baseLevel scan.state token.level) := by
    rw [feedToken_counted scan token counts, next_stays scan.state token.kind noTry noCatch]
    rfl
  obtain ⟨extra, few, raised⟩ :=
    scan_interposed (measure scan.baseLevel scan.state token.level) scan behind
  have scores : score (before ++ [token] ++ behind) = score (before ++ behind) + extra := by
    simp only [score, List.foldl_append, List.foldl_cons, List.foldl_nil, reached]
    rw [fed, raised]
  omega

-- A loop at depth three between an `if` at depth one, inside `try`, and one at depth two, which no
-- longer deepens.
theorem score_insert_loop :
    let token := fun kind level => (⟨kind, [], 0, level, 1, 1, none⟩ : Token)
    let before := [token .tryWord 1, token .ifWord 2]
    let behind := [token .ifWord 3]
    let score := fun (tokens : List Token) => (tokens.foldl feedToken (start 0)).score
    (token .whileWord 4).kind.isIncreasing = true ∧ (token .whileWord 4).kind ≠ .catchWord ∧
    score (before ++ behind) = 3 ∧
    (score (before ++ [token .whileWord 4] ++ behind) = 4 ∨
      score (before ++ [token .whileWord 4] ++ behind) = 5) := by
  intro token before behind score
  have counts : (token .whileWord 4).kind.isIncreasing = true := by decide
  have noCatch : (token .whileWord 4).kind ≠ .catchWord := by decide
  have without : score (before ++ behind) = 3 := by decide
  have raised : score (before ++ [token .whileWord 4] ++ behind) = score (before ++ behind) + 1 ∨
      score (before ++ [token .whileWord 4] ++ behind) = score (before ++ behind) + 2 :=
    score_insert 0 before behind (token .whileWord 4) counts noCatch
  rw [without] at raised
  exact ⟨counts, noCatch, without, raised⟩

end Scan

end CognitiveComplexity
