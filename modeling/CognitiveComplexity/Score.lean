import CognitiveComplexity.Function.Scope

set_option autoImplicit false

namespace CognitiveComplexity

/-- Whether the scan stands inside a `try` block. There is no depth: the first `catch` leads
outside, whichever `try` it belongs to. -/
inductive TryState where
  | outside
  | insideTry
  deriving DecidableEq, Repr, Inhabited

namespace TryState

def next : TryState → Kind → TryState
  | .outside, .tryWord => .insideTry
  | .insideTry, .catchWord => .outside
  | state, _ => state

def isInside (state : TryState) : Bool := state == .insideTry

end TryState

structure Scan where
  baseLevel : Nat
  score : Nat
  -- The measured level of the last token that counted.
  previous : Int
  state : TryState
  deriving DecidableEq, Repr

namespace Scan

def start (baseLevel : Nat) : Scan := ⟨baseLevel, 0, 0, .outside⟩

/-- A level relative to the function, one less inside `try`, in 64-bit signed arithmetic. -/
def measure (baseLevel : Nat) (state : TryState) (level : Nat) : Int :=
  Int.bmod ((level : Int) - baseLevel - if state.isInside then 1 else 0) wordCount

def feed (scan : Scan) (kind : Kind) (level : Nat) : Scan :=
  let state := scan.state.next kind
  if kind.isIncreasing then
    let measured := measure scan.baseLevel state level
    let nested := decide (1 < measured) && decide (scan.previous < measured)
    { scan with
      score := scan.score + 1 + nested.toNat
      previous := measured
      state }
  else { scan with state }

def feedToken (scan : Scan) (token : Token) : Scan := scan.feed token.kind token.level

def signed (value : Nat) : Int := Int.bmod value wordCount

def subtract (left right : Int) : Except Fault Int :=
  if -0x8000000000000000 ≤ left - right ∧ left - right < 0x8000000000000000 then
    .ok (left - right)
  else .error .overflow

def measureChecked (baseLevel : Nat) (state : TryState) (level : Nat) : Except Fault Int := do
  let relative ← subtract (signed level) (signed baseLevel)
  if state.isInside then subtract relative 1 else return relative

def feedChecked (scan : Scan) (kind : Kind) (level : Nat) : Except Fault Scan := do
  if kind.isIncreasing then
    let _ ← measureChecked scan.baseLevel (scan.state.next kind) level
  return scan.feed kind level

def feedTokenChecked (scan : Scan) (token : Token) : Except Fault Scan :=
  scan.feedChecked token.kind token.level

end Scan

namespace Body

def scan (body : Body) (stream : List Token) : Scan :=
  (body.tokens stream).foldl Scan.feedToken (.start body.baseLevel)

def score (body : Body) (stream : List Token) : Nat := (body.scan stream).score

def scoreChecked (body : Body) (stream : List Token) : Except Fault Nat := do
  let tokens ← body.window stream
  return (← tokens.foldlM Scan.feedTokenChecked (.start body.baseLevel)).score

end Body

end CognitiveComplexity
