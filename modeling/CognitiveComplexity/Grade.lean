set_option autoImplicit false

namespace CognitiveComplexity

inductive Grade where
  | simple
  | moderate
  | complex
  | veryComplex
  | extreme
  deriving DecidableEq, Repr, Inhabited

namespace Grade

def ofScore (score : Nat) : Grade :=
  if score < 5 then .simple
  else if score < 10 then .moderate
  else if score < 15 then .complex
  else if score < 25 then .veryComplex
  else .extreme

def label : Grade → String
  | .simple => "simple"
  | .moderate => "moderate"
  | .complex => "complex"
  | .veryComplex => "very complex"
  | .extreme => "extreme"

def tag : Grade → String
  | .veryComplex => "very_complex"
  | grade => grade.label

end Grade

end CognitiveComplexity
