import CognitiveComplexity.Token.Kind

set_option autoImplicit false

-- Bracket matching. A closing bracket belongs to the innermost open bracket of its own shape;
-- curly brackets and parentheses are matched independently of each other. The level of a token is
-- the number of curly brackets open around it, and a pair of curly brackets has the level of what
-- surrounds it.

namespace CognitiveComplexity

structure Mark where
  level : Nat
  partner : Option Nat
  deriving DecidableEq, Repr, Inhabited

/-- How many curly brackets are open, the open brackets of each shape, innermost first, and the marks
of the tokens so far. -/
structure Nesting where
  depth : Nat
  curlies : List Nat
  parens : List Nat
  marks : Array Mark
  deriving Repr

namespace Nesting

def empty : Nesting := ⟨0, [], [], #[]⟩

def plain (nesting : Nesting) : Nesting :=
  let ⟨depth, curlies, parens, marks⟩ := nesting
  ⟨depth, curlies, parens, marks.push ⟨depth, none⟩⟩

def openCurly (nesting : Nesting) : Nesting :=
  let ⟨depth, curlies, parens, marks⟩ := nesting
  ⟨depth + 1, marks.size :: curlies, parens, marks.push ⟨depth, none⟩⟩

def openParen (nesting : Nesting) : Nesting :=
  let ⟨depth, curlies, parens, marks⟩ := nesting
  ⟨depth, curlies, marks.size :: parens, marks.push ⟨depth, none⟩⟩

def closePair (marks : Array Mark) (opener level : Nat) : Array Mark :=
  let position := marks.size
  (marks.modify opener fun mark => { mark with partner := some position }).push
    ⟨level, some opener⟩

def closeCurly : Nesting → Nesting
  | ⟨depth, [], parens, marks⟩ => ⟨depth, [], parens, marks.push ⟨depth, none⟩⟩
  | ⟨depth, opener :: outer, parens, marks⟩ =>
    ⟨depth - 1, outer, parens, closePair marks opener (depth - 1)⟩

def closeParen : Nesting → Nesting
  | ⟨depth, curlies, [], marks⟩ => ⟨depth, curlies, [], marks.push ⟨depth, none⟩⟩
  | ⟨depth, curlies, opener :: outer, marks⟩ =>
    ⟨depth, curlies, outer, closePair marks opener depth⟩

def step (nesting : Nesting) : Kind → Nesting
  | .openCurly => nesting.openCurly
  | .closeCurly => nesting.closeCurly
  | .openParen => nesting.openParen
  | .closeParen => nesting.closeParen
  | _ => nesting.plain

def ofKinds (kinds : List Kind) : Nesting := kinds.foldl step empty

end Nesting

end CognitiveComplexity
