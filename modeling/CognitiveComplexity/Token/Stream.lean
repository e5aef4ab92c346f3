import CognitiveComplexity.Token.Context
import CognitiveComplexity.Token.Nesting

set_option autoImplicit false

namespace CognitiveComplexity

structure Token where
  kind : Kind
  text : Bytes
  position : Nat
  level : Nat
  line : Nat
  column : Nat
  partner : Option Nat
  deriving DecidableEq, Repr, Inhabited

namespace Token

def ofLexeme (lexeme : Lexeme) (kind : Kind) (position : Nat) (mark : Mark) : Token :=
  { kind, text := lexeme.text, position, level := mark.level, line := lexeme.place.line
    column := lexeme.place.column, partner := mark.partner }

def assemble (position : Nat) : List Lexeme → List Kind → List Mark → List Token
  | lexeme :: lexemes, kind :: kinds, mark :: marks =>
    ofLexeme lexeme kind position mark :: assemble (position + 1) lexemes kinds marks
  | _, _, _ => []

def ofLexemes (lexemes : List Lexeme) : List Token :=
  let nesting := Nesting.ofKinds (lexemes.map (·.kind))
  assemble 0 lexemes (Lexeme.kinds lexemes) nesting.marks.toList

def ofBytes (source : Bytes) : List Token := ofLexemes (Lexeme.ofSource source)

def stream (source : String) : List Token := ofBytes (Bytes.ofString source)

end Token

end CognitiveComplexity
