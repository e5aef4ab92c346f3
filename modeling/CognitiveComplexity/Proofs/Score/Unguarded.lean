import CognitiveComplexity.Proofs.Score.Step
import Mathlib.Tactic.Ring

set_option autoImplicit false

namespace CognitiveComplexity

-- The same token with one more curly bracket around it.
def Token.deepened (token : Token) : Token := { token with level := token.level + 1 }

namespace Scan

def guarded (scan : Scan) : Scan := { scan with state := .insideTry }

theorem measure_deepened (baseLevel level : Nat) :
    measure baseLevel .insideTry (level + 1) = measure baseLevel .outside level := by
  have inside : TryState.insideTry.isInside = true := rfl
  have outside : TryState.outside.isInside = false := rfl
  simp only [measure, inside, outside, if_true, Bool.false_eq_true, if_false]
  congr 1
  push_cast
  ring

theorem feedToken_guarded (scan : Scan) (token : Token) (outside : scan.state = .outside)
    (noTry : token.kind ≠ .tryWord) (noCatch : token.kind ≠ .catchWord) :
    scan.guarded.feedToken token.deepened = (scan.feedToken token).guarded := by
  have inside : scan.guarded.state.next token.deepened.kind = .insideTry :=
    next_stays .insideTry token.kind noTry noCatch
  have stays : scan.state.next token.kind = .outside :=
    (next_stays scan.state token.kind noTry noCatch).trans outside
  have measured : measure scan.guarded.baseLevel .insideTry token.deepened.level =
      measure scan.baseLevel .outside token.level := measure_deepened scan.baseLevel token.level
  cases counts : token.kind.isIncreasing
  next =>
    rw [feedToken_neutral scan token counts, feedToken_neutral _ token.deepened counts, inside]
    rfl
  next =>
    rw [feedToken_counted scan token counts, feedToken_counted _ token.deepened counts, inside, stays,
      measured]
    rfl

theorem scan_guarded (scan : Scan) (block : List Token) (outside : scan.state = .outside)
    (noTry : ∀ token ∈ block, token.kind ≠ .tryWord)
    (noCatch : ∀ token ∈ block, token.kind ≠ .catchWord) :
    (block.map Token.deepened).foldl feedToken scan.guarded = (block.foldl feedToken scan).guarded ∧
      (block.foldl feedToken scan).state = .outside := by
  induction block generalizing scan with
  | nil => exact ⟨rfl, outside⟩
  | cons token rest ih =>
    have plainTry := noTry token List.mem_cons_self
    have plainCatch := noCatch token List.mem_cons_self
    have stays : (scan.feedToken token).state = .outside := by
      simpa [outside] using next_stays scan.state token.kind plainTry plainCatch
    rw [List.map_cons, List.foldl_cons, feedToken_guarded scan token outside plainTry plainCatch]
    apply ih (scan.feedToken token) stays
    next => exact fun later member => noTry later (List.mem_cons_of_mem token member)
    next => exact fun later member => noCatch later (List.mem_cons_of_mem token member)

theorem feedToken_try (scan : Scan) (token : Token) (outside : scan.state = .outside)
    (tries : token.kind = .tryWord) : scan.feedToken token = scan.guarded := by
  have neutral : token.kind.isIncreasing = false := by
    rw [tries]
    decide
  rw [feedToken_neutral scan token neutral, outside, tries]
  rfl

theorem feedToken_passed (scan : Scan) (token : Token) (neutral : token.kind.isIncreasing = false)
    (noTry : token.kind ≠ .tryWord) (noCatch : token.kind ≠ .catchWord) :
    scan.feedToken token = scan := by
  rw [feedToken_neutral scan token neutral, next_stays scan.state token.kind noTry noCatch]

-- `catch` moves the state before its own level is measured.
theorem feedToken_catch (scan : Scan) (token : Token) (outside : scan.state = .outside)
    (catches : token.kind = .catchWord) : scan.guarded.feedToken token = scan.feedToken token := by
  have counts : token.kind.isIncreasing = true := by
    rw [catches]
    decide
  simp only [feedToken_counted _ token counts, guarded, catches, outside]
  rfl

/-- Entering a `try` block adds no nesting level: the scan of a guarded block, whose tokens are one
level deeper, ends as the scan of the bare block does once `catch` is read, whatever comes before and
behind. The levels of the `try` and of its brackets do not matter. -/
theorem scan_without_try (baseLevel : Nat) (before block behind : List Token)
    (word opener closer handler : Token)
    (outside : (before.foldl feedToken (start baseLevel)).state.isInside = false)
    (noTry : ∀ token ∈ block, token.kind ≠ .tryWord)
    (noCatch : ∀ token ∈ block, token.kind ≠ .catchWord)
    (tries : word.kind = .tryWord) (opens : opener.kind = .openCurly)
    (closes : closer.kind = .closeCurly) (catches : handler.kind = .catchWord) :
    (before ++ [word, opener] ++ block.map Token.deepened ++ [closer, handler] ++ behind).foldl
        feedToken (start baseLevel) =
      (before ++ block ++ [handler] ++ behind).foldl feedToken (start baseLevel) := by
  have plain (token : Token) (bracket : token.kind = .openCurly ∨ token.kind = .closeCurly)
      (scan : Scan) : scan.feedToken token = scan := by
    apply feedToken_passed
    all_goals rcases bracket with same | same <;> rw [same] <;> decide
  simp only [List.foldl_append, List.foldl_cons, List.foldl_nil]
  generalize before.foldl feedToken (start baseLevel) = scan at outside
  have entered : scan.state = .outside := by
    cases state : scan.state with
    | outside => rfl
    | insideTry =>
      rw [state] at outside
      cases outside
  obtain ⟨guardedBlock, left⟩ := scan_guarded scan block entered noTry noCatch
  rw [feedToken_try scan word entered tries, plain opener (.inl opens), guardedBlock,
    plain closer (.inr closes), feedToken_catch _ handler left catches]

-- A loop in a loop, guarded behind an `if`, with an `if` in the handler.
theorem scan_without_try_loops :
    let token := fun kind level => (⟨kind, [], 0, level, 1, 1, none⟩ : Token)
    let before := [token .ifWord 1]
    let block := [token .whileWord 1, token .openCurly 1, token .forWord 2, token .closeCurly 1]
    let handler := token .catchWord 1
    let behind := [token .ifWord 2]
    let scan := fun (tokens : List Token) => tokens.foldl feedToken (start 0)
    (scan before).state.isInside = false ∧
    (∀ token ∈ block, token.kind ≠ .tryWord) ∧ (∀ token ∈ block, token.kind ≠ .catchWord) ∧
    (scan (before ++ block ++ [handler] ++ behind)).score = 7 ∧
    (scan (before ++ [token .tryWord 1, token .openCurly 1] ++ block.map Token.deepened ++
      [token .closeCurly 1, handler] ++ behind)).score = 7 := by
  intro token before block handler behind scan
  have outside : (scan before).state.isInside = false := by decide
  have noTry : ∀ token ∈ block, token.kind ≠ .tryWord := by decide
  have noCatch : ∀ token ∈ block, token.kind ≠ .catchWord := by decide
  have bare : (scan (before ++ block ++ [handler] ++ behind)).score = 7 := by decide
  have same : scan (before ++ [token .tryWord 1, token .openCurly 1] ++ block.map Token.deepened ++
      [token .closeCurly 1, handler] ++ behind) = scan (before ++ block ++ [handler] ++ behind) :=
    scan_without_try 0 before block behind (token .tryWord 1) (token .openCurly 1)
      (token .closeCurly 1) handler outside noTry noCatch rfl rfl rfl rfl
  exact ⟨outside, noTry, noCatch, bare, (congrArg score same).trans bare⟩

end Scan

end CognitiveComplexity
