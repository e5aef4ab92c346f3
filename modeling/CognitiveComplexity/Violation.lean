import CognitiveComplexity.Score

set_option autoImplicit false

namespace CognitiveComplexity

structure Violation where
  position : Nat
  score : Nat
  threshold : Nat
  deriving DecidableEq, Repr, Inhabited

namespace Violation

def rule : String := "CleanCode.CognitiveComplexity"

def defaultThreshold : Nat := 15

def message (violation : Violation) : String :=
  s!"Cognitive complexity {violation.score} have to be less than {violation.threshold}."

def ofScore? (body : Body) (score threshold : Nat) : Option Violation :=
  if threshold < score then some ⟨body.start, score, threshold⟩ else none

end Violation

def Body.violation? (body : Body) (stream : List Token) (threshold : Nat) : Option Violation :=
  Violation.ofScore? body (body.score stream) threshold

def Body.evaluate (body : Body) (stream : List Token) (threshold : Nat) :
    Except Fault (Option Violation) := do
  return Violation.ofScore? body (← body.scoreChecked stream) threshold

end CognitiveComplexity
