import CognitiveComplexity.Token.Stream

set_option autoImplicit false

namespace CognitiveComplexity

def wordCount : Nat := 0x10000000000000000

inductive Fault where
  | overflow
  | slice
  deriving DecidableEq, Repr

/-- The body of a function within a token stream: the positions of its curly brackets and the level
of the definition. -/
structure Body where
  start : Nat
  stop : Nat
  baseLevel : Nat
  deriving DecidableEq, Repr, Inhabited

namespace Body

def tokens (body : Body) (stream : List Token) : List Token :=
  (stream.drop (body.start + 1)).take (body.stop - (body.start + 1))

def advance (position : Nat) : Except Fault Nat :=
  if position + 1 < wordCount then .ok (position + 1) else .error .overflow

def slice (stream : List Token) (first last : Nat) : Except Fault (List Token) :=
  if first ≤ last ∧ last ≤ stream.length then .ok ((stream.drop first).take (last - first))
  else .error .slice

-- The same tokens in checked arithmetic, for any words as positions.
def window (body : Body) (stream : List Token) : Except Fault (List Token) := do
  let last := min body.stop stream.length
  let first := min (← advance body.start) last
  slice stream first last

end Body

structure Scope where
  name : Bytes
  keyword : Nat
  body : Body
  deriving DecidableEq, Repr, Inhabited

namespace Scope

def anonymous : Bytes := Bytes.ofString "<anonymous>"

/-- The name behind a `function` word: comments and by-reference signs are passed over. -/
def nameOf (rest : List Token) : Bytes :=
  match rest.find? fun token => token.kind != .comment && token.kind != .bitwiseAnd with
  | some token => if token.kind == .identifier then token.text else anonymous
  | none => anonymous

/-- The parenthesis that opens the parameters, unless a body or the end of a statement comes
first. -/
def parameters? (rest : List Token) : Option Token :=
  (rest.find? fun token =>
    token.kind == .openParen || token.kind == .openCurly || token.kind == .semicolon).filter
      (·.kind == .openParen)

def opener? (level : Nat) (rest : List Token) : Option Token :=
  (rest.find? fun token => token.kind == .openCurly || token.kind == .semicolon).filter
    fun token => token.kind == .openCurly && token.level == level

def at? (stream : List Token) (position : Nat) : Option Scope := do
  let keyword ← stream[position]?.filter (·.kind == .function)
  let behind := stream.drop (position + 1)
  let parameters ← parameters? behind
  let parametersEnd ← parameters.partner
  let opener ← opener? keyword.level (stream.drop (parametersEnd + 1))
  let closer ← opener.partner
  return ⟨nameOf behind, position, ⟨opener.position, closer, keyword.level⟩⟩

def positions (stream : List Token) : List Nat :=
  (stream.filter (·.kind == .function)).map (·.position)

-- The functions of a stream, in source order; those without a body are left out.
def all (stream : List Token) : List Scope := (positions stream).filterMap (at? stream)

end Scope

end CognitiveComplexity
