import CognitiveComplexity.Byte

set_option autoImplicit false

/-!
How far each kind of lexeme reaches. Every function takes the bytes from some point on and answers
how many of them still belong to the lexeme.
-/

namespace CognitiveComplexity.Extent

open Byte

def word (bytes : Bytes) : Nat := (bytes.takeWhile isWord).length

/-- The rest of a number: alphanumeric bytes, underscores, and dots directly before a digit. -/
def number : Bytes → Nat
  | [] => 0
  | b :: rest =>
    if isAlphanumeric b || b == underscore || (b == dot && rest.head?.any isDigit) then
      number rest + 1
    else 0

def lineComment : Bytes → Nat
  | [] => 0
  | newline :: _ => 0
  | question :: greater :: _ => 0
  | _ :: rest => lineComment rest + 1

-- The rest of a block comment, through the first `*/` or to the end of input.
def blockComment : Bytes → Nat
  | [] => 0
  | asterisk :: slash :: _ => 2
  | _ :: rest => blockComment rest + 1

/-- The rest of a quoted literal, through the first quote that no backslash consumes or to the end
of input. -/
def quoted (quote : UInt8) : Bytes → Nat
  | [] => 0
  | [_] => 1
  | b :: next :: rest =>
    if b == backslash then quoted quote rest + 2
    else if b == quote then 1
    else quoted quote (next :: rest) + 1

/-- Whether the heredoc with this label closes on the line that starts here, and after how many
bytes: blanks, then the label, then no further word byte. -/
def heredocLabel? (label : Bytes) (line : Bytes) : Option Nat :=
  let indent := (line.takeWhile isIndent).length
  let text := line.drop indent
  if label.isPrefixOf text && !(text.drop label.length).head?.any isWord then
    some (indent + label.length)
  else none

def heredocBody (label : Bytes) : (lineStart : Bool) → Bytes → Nat
  | _, [] => 0
  | lineStart, b :: rest =>
    match if lineStart then heredocLabel? label (b :: rest) else none with
    | some size => size
    | none => heredocBody label (b == newline) rest + 1

def labelQuote? (start : Bytes) : Option UInt8 :=
  start.head?.filter fun b => b == singleQuote || b == doubleQuote

def behindQuote (start : Bytes) : Bytes :=
  if (labelQuote? start).isSome then start.drop 1 else start

-- What follows a label: a quoted one needs its closing quote.
def behindLabel? (quote : Option UInt8) (closed : Bytes) : Option Bytes :=
  match quote with
  | none => some closed
  | some quote => if closed.head? == some quote then some (closed.drop 1) else none

def behindLine? : Bytes → Option Bytes
  | carriageReturn :: newline :: body => some body
  | newline :: body => some body
  | _ => none

/-- The label of a heredoc and what follows its first line, read from behind `<<<`. The line ends
right after the label. -/
def heredocOpening? (bytes : Bytes) : Option (Bytes × Bytes) :=
  let start := bytes.dropWhile isIndent
  let named := behindQuote start
  let label := named.takeWhile isWord
  if label.isEmpty then none
  else ((behindLabel? (labelQuote? start) (named.dropWhile isWord)).bind behindLine?).map (label, ·)

def heredoc? (bytes : Bytes) : Option Nat :=
  (heredocOpening? bytes).map fun (label, body) =>
    (bytes.length - body.length) + heredocBody label true body

/-- The size of an opening tag that starts here: `<?=`, or `<?php` in any case before a blank or the
end of input. -/
def openTag? (bytes : Bytes) : Option Nat :=
  if (Bytes.ofString "<?=").isPrefixOf bytes then some 3
  else if Bytes.lower (bytes.take 5) == Bytes.ofString "<?php" && (bytes.drop 5).head?.all isBlank
  then some 5
  else none

def html : Bytes → Nat
  | [] => 0
  | b :: rest => if (openTag? (b :: rest)).isSome then 0 else html rest + 1

end CognitiveComplexity.Extent
