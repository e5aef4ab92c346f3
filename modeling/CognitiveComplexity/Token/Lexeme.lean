import CognitiveComplexity.Token.Extent
import CognitiveComplexity.Token.Kind

set_option autoImplicit false

namespace CognitiveComplexity

structure Place where
  line : Nat
  column : Nat
  deriving DecidableEq, Repr, Inhabited

namespace Place

def start : Place := ⟨1, 1⟩

def advance (place : Place) (b : UInt8) : Place :=
  if b == Byte.newline then ⟨place.line + 1, 1⟩ else ⟨place.line, place.column + 1⟩

def after (place : Place) (bytes : Bytes) : Place := bytes.foldl advance place

end Place

structure Lexeme where
  kind : Kind
  text : Bytes
  place : Place
  deriving DecidableEq, Repr, Inhabited

inductive Mode where
  | html
  | php
  deriving DecidableEq, Repr, Inhabited

/-- What starts at some byte: its kind, none for a blank, the number of bytes it has beside the
first, and the mode after it. -/
structure Reading where
  kind : Option Kind
  more : Nat
  mode : Mode
  deriving DecidableEq, Repr

namespace Reading

def token (kind : Kind) (more : Nat) : Reading := ⟨some kind, more, .php⟩

def html (first : UInt8) (rest : Bytes) : Reading :=
  match Extent.openTag? (first :: rest) with
  | some size => ⟨some .openTag, size - 1, .php⟩
  | none => ⟨some .inlineHtml, Extent.html rest, .html⟩

def operator (first : UInt8) (rest : Bytes) : Reading :=
  match Kind.operatorTable.find? (·.isPrefixOf (first :: rest)) with
  | some text => token (Kind.ofOperator text) (text.length - 1)
  | none => token .operator 0

def plain (first : UInt8) (rest : Bytes) : Reading :=
  if Byte.isQuote first then token .string (Extent.quoted first rest)
  else if first == Byte.dollar && rest.head?.any Byte.isWord then
    token .variable (Extent.word rest)
  else if Byte.isDigit first then token .number (Extent.number rest)
  else if Byte.isWord first then
    let more := Extent.word rest
    token (Kind.ofWord (first :: rest.take more)) more
  else operator first rest

def php (first : UInt8) (rest : Bytes) : Reading :=
  if Byte.isBlank first then ⟨none, 0, .php⟩
  else match first, rest with
    | Byte.question, Byte.greater :: _ => ⟨some .closeTag, 1, .html⟩
    | Byte.slash, Byte.slash :: _ => token .comment (Extent.lineComment rest)
    | Byte.hash, Byte.openSquare :: _ => plain first rest
    | Byte.hash, _ => token .comment (Extent.lineComment rest)
    | Byte.slash, Byte.asterisk :: body => token .comment (Extent.blockComment body + 1)
    | Byte.less, Byte.less :: Byte.less :: after =>
      match Extent.heredoc? after with
      | some size => token .string (size + 2)
      | none => plain first rest
    | _, _ => plain first rest

end Reading

namespace Mode

def read : Mode → UInt8 → Bytes → Reading
  | .html => Reading.html
  | .php => Reading.php

end Mode

namespace Lexeme

def list (mode : Mode) (place : Place) : Bytes → List Lexeme
  | [] => []
  | first :: rest =>
    let reading := mode.read first rest
    let text := first :: rest.take reading.more
    let following := list reading.mode (place.after text) (rest.drop reading.more)
    match reading.kind with
    | none => following
    | some kind => ⟨kind, text, place⟩ :: following
termination_by bytes => bytes.length
decreasing_by simp only [List.length_drop, List.length_cons]; omega

def ofSource (source : Bytes) : List Lexeme := list .html .start source

end Lexeme

end CognitiveComplexity
