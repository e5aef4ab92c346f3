import CognitiveComplexity.Token.Stream
import CognitiveComplexity.Proofs.Text.Boundary

set_option autoImplicit false

/-!
A scanner with a cursor. It moves over the bytes of a source and cuts token texts out of it, and it
stops with a fault at the first access that leaves the source, cuts a character, or refers to a
token that is not there.
-/

namespace CognitiveComplexity

namespace Scanner

open Byte Bytes

inductive Fault where
  | index
  | slice
  | column
  | token
  | unfinished
  deriving DecidableEq, Repr

def byteAt (bytes : Bytes) (offset : Nat) : Except Fault UInt8 :=
  match bytes[offset]? with
  | some b => .ok b
  | none => .error .index

def bytesFrom (bytes : Bytes) (offset : Nat) : Except Fault Bytes :=
  if offset ≤ bytes.length then .ok (bytes.drop offset) else .error .index

def bytesUpTo (bytes : Bytes) (offset : Nat) : Except Fault Bytes :=
  if offset ≤ bytes.length then .ok (bytes.take offset) else .error .index

def slice (source : String) (start stop : Nat) : Except Fault Bytes :=
  if start ≤ stop ∧ Boundary source start ∧ Boundary source stop then
    .ok (((ofString source).drop start).take (stop - start))
  else .error .slice

def tokenAt (tokens : Array Token) (index : Nat) : Except Fault Token :=
  match tokens[index]? with
  | some token => .ok token
  | none => .error .token

def tokensFrom (tokens : Array Token) (index : Nat) : Except Fault (List Token) :=
  if index ≤ tokens.size then .ok (tokens.toList.drop index) else .error .token

def amend (tokens : Array Token) (index : Nat) (change : Token → Token) :
    Except Fault (Array Token) :=
  if index < tokens.size then .ok (tokens.modify index change) else .error .token

def seek (bytes : Bytes) (stays : Nat → Except Fault Bool) (offset : Nat) : Except Fault Nat := do
  -- The condition is asked only of offsets inside the bytes.
  if offset < bytes.length then
    if ← stays offset then seek bytes stays (offset + 1) else return offset
  else return offset
termination_by bytes.length - offset

def seekByte (bytes : Bytes) (stays : UInt8 → Bool) (offset : Nat) : Except Fault Nat :=
  seek bytes (fun j => do return stays (← byteAt bytes j)) offset

def wordEnd (bytes : Bytes) (offset : Nat) : Except Fault Nat := seekByte bytes isWord offset

def numberEnd (bytes : Bytes) (offset : Nat) : Except Fault Nat :=
  seek bytes (fun j => do
    let b ← byteAt bytes j
    return isAlphanumeric b || b == underscore || (b == dot && bytes[j + 1]?.any isDigit)) offset

def lineCommentEnd (bytes : Bytes) (offset : Nat) : Except Fault Nat :=
  seek bytes (fun j => do
    let b ← byteAt bytes j
    let rest ← bytesFrom bytes j
    return b != newline && !([question, greater].isPrefixOf rest)) offset

def quotedEnd (bytes : Bytes) (quote : UInt8) (offset : Nat) : Except Fault Nat := do
  if offset < bytes.length then
    let b ← byteAt bytes offset
    -- A backslash takes the next byte with it, even where there is none.
    if b == backslash then quotedEnd bytes quote (offset + 2)
    else if b == quote then return offset + 1
    else quotedEnd bytes quote (offset + 1)
  else return bytes.length
termination_by bytes.length - offset

def occurrence? (text : Bytes) : Bytes → Option Nat
  | [] => none
  | b :: rest =>
    if text.isPrefixOf (b :: rest) then some 0 else (occurrence? text rest).map (· + 1)

def distance? (source : String) (text : Bytes) (offset : Nat) : Except Fault (Option Nat) := do
  let rest ← slice source offset (ofString source).length
  return occurrence? text rest

def blockCommentEnd (source : String) (offset : Nat) : Except Fault Nat := do
  match ← distance? source [asterisk, slash] offset with
  | some distance => return offset + distance + 2
  | none => return (ofString source).length

def heredocClose (source : String) (label : Bytes) (lineStart : Nat) :
    Except Fault (Option Nat) := do
  if lineStart < (ofString source).length then
    -- The label closes at the start of a line only, behind blanks.
    let start ← seekByte (ofString source) isIndent lineStart
    let rest ← bytesFrom (ofString source) start
    let candidate := start + label.length
    if label.isPrefixOf rest && !(ofString source)[candidate]?.any isWord then
      return some candidate
    else
      match ← distance? source [newline] lineStart with
      | some distance => heredocClose source label (lineStart + distance + 1)
      | none => return none
  else return none
termination_by (ofString source).length - lineStart

def heredocBehind? (source : String) (label : Bytes) (quote : Option UInt8) (labelEnd : Nat) :
    Except Fault (Option Nat) := do
  let bytes := ofString source
  if quote.isSome && bytes[labelEnd]? != quote then return none
  else
    let closed := if quote.isSome then labelEnd + 1 else labelEnd
    let ended := if bytes[closed]? == some carriageReturn then closed + 1 else closed
    if bytes[ended]? == some newline then
      let close? ← heredocClose source label (ended + 1)
      return some (close?.getD bytes.length)
    else return none

def heredocEnd? (source : String) (offset : Nat) : Except Fault (Option Nat) := do
  let bytes := ofString source
  let start ← seekByte bytes isIndent (offset + 3)
  let quote := bytes[start]?.filter fun b => b == singleQuote || b == doubleQuote
  let labelStart := if quote.isSome then start + 1 else start
  let labelEnd ← wordEnd bytes labelStart
  if labelEnd == labelStart then return none
  else
    let label ← slice source labelStart labelEnd
    heredocBehind? source label quote labelEnd

def openTagAt (bytes : Bytes) (offset : Nat) : Except Fault Bool := do
  let rest ← bytesFrom bytes offset
  if (ofString "<?=").isPrefixOf rest then return true
  else if 5 ≤ rest.length then
    let name ← bytesUpTo rest 5
    return lower name == ofString "<?php" && rest[5]?.all isBlank
  else return false

end Scanner

structure Scanner where
  cursor : Nat
  line : Nat
  -- The offset where the current line starts.
  lineStart : Nat
  mode : Mode
  depth : Nat
  curlies : List Nat
  parens : List Nat
  tokens : Array Token

namespace Scanner

open Byte Bytes

def start : Scanner := ⟨0, 1, 0, .html, 0, [], [], #[]⟩

def advanceTo (bytes : Bytes) (scanner : Scanner) (stop : Nat) : Except Fault Scanner := do
  if scanner.cursor < stop then
    let b ← byteAt bytes scanner.cursor
    if b == newline then
      advanceTo bytes { scanner with
        cursor := scanner.cursor + 1
        line := scanner.line + 1
        lineStart := scanner.cursor + 1 } stop
    else advanceTo bytes { scanner with cursor := scanner.cursor + 1 } stop
  else return scanner
termination_by stop - scanner.cursor

def column (scanner : Scanner) : Except Fault Nat :=
  if scanner.lineStart ≤ scanner.cursor then .ok (scanner.cursor - scanner.lineStart + 1)
  else .error .column

def push (source : String) (scanner : Scanner) (kind : Kind) (start line column : Nat) :
    Except Fault Scanner := do
  let position := scanner.tokens.size
  let text ← slice source start scanner.cursor
  let token (level : Nat) (partner : Option Nat) : Token :=
    { kind, text, position, level, line, column, partner }
  let { depth, curlies, parens, tokens, .. } := scanner
  match kind, curlies, parens with
  | .openCurly, _, _ =>
    return { scanner with
      depth := depth + 1, curlies := position :: curlies, tokens := tokens.push (token depth none) }
  | .openParen, _, _ =>
    return { scanner with parens := position :: parens, tokens := tokens.push (token depth none) }
  | .closeCurly, opener :: outer, _ =>
    let linked ← amend tokens opener ({ · with partner := some position })
    return { scanner with
      depth := depth - 1, curlies := outer
      tokens := linked.push (token (depth - 1) (some opener)) }
  | .closeParen, _, opener :: outer =>
    let linked ← amend tokens opener ({ · with partner := some position })
    return { scanner with parens := outer, tokens := linked.push (token depth (some opener)) }
  | _, _, _ => return { scanner with tokens := tokens.push (token depth none) }

def emit (source : String) (scanner : Scanner) (kind : Kind) (stop : Nat) :
    Except Fault Scanner := do
  let column ← scanner.column
  let moved ← advanceTo (ofString source) scanner stop
  push source moved kind scanner.cursor scanner.line column

def scanTag (source : String) (scanner : Scanner) (tag : Nat) : Except Fault Scanner := do
  let bytes := ofString source
  if tag < bytes.length then
    let third ← byteAt bytes (tag + 2)
    let tagged ← emit source scanner .openTag (tag + if third == equals then 3 else 5)
    return { tagged with mode := .php }
  else return scanner

def scanHtml (source : String) (scanner : Scanner) : Except Fault Scanner := do
  let bytes := ofString source
  -- Markup up to the next opening tag, then the tag.
  let tag ← seek bytes (fun j => do return !(← openTagAt bytes j)) scanner.cursor
  let shown ← if scanner.cursor < tag then emit source scanner .inlineHtml tag else pure scanner
  scanTag source shown tag

structure Span where
  kind : Kind
  stop : Nat
  mode : Mode

def operatorSpan (bytes : Bytes) (offset : Nat) : Except Fault Span := do
  let rest ← bytesFrom bytes offset
  match Kind.operatorTable.find? (·.isPrefixOf rest) with
  | some text => return ⟨Kind.ofOperator text, offset + text.length, .php⟩
  | none => return ⟨.operator, offset + 1, .php⟩

def plainSpan (source : String) (offset : Nat) (b : UInt8) : Except Fault Span := do
  let bytes := ofString source
  if isQuote b then return ⟨.string, ← quotedEnd bytes b (offset + 1), .php⟩
  else if b == dollar && bytes[offset + 1]?.any isWord then
    return ⟨.variable, ← wordEnd bytes (offset + 1), .php⟩
  else if isDigit b then return ⟨.number, ← numberEnd bytes offset, .php⟩
  else if isWord b then
    let stop ← wordEnd bytes offset
    let word ← slice source offset stop
    return ⟨Kind.ofWord word, stop, .php⟩
  else operatorSpan bytes offset

def heredocSpan (source : String) (offset : Nat) (b : UInt8) : Except Fault Span := do
  let rest ← bytesFrom (ofString source) offset
  if [less, less, less].isPrefixOf rest then
    match ← heredocEnd? source offset with
    | some stop => return ⟨.string, stop, .php⟩
    | none => plainSpan source offset b
  else plainSpan source offset b

def phpSpan (source : String) (offset : Nat) (b : UInt8) : Except Fault Span := do
  let bytes := ofString source
  let rest ← bytesFrom bytes offset
  if [question, greater].isPrefixOf rest then return ⟨.closeTag, offset + 2, .html⟩
  else if [slash, slash].isPrefixOf rest ||
      (b == hash && bytes[offset + 1]? != some openSquare) then
    return ⟨.comment, ← lineCommentEnd bytes offset, .php⟩
  else if [slash, asterisk].isPrefixOf rest then
    return ⟨.comment, ← blockCommentEnd source (offset + 2), .php⟩
  else heredocSpan source offset b

def scanPhp (source : String) (scanner : Scanner) : Except Fault Scanner := do
  let bytes := ofString source
  let b ← byteAt bytes scanner.cursor
  if isBlank b then
    let stop ← seekByte bytes isBlank scanner.cursor
    advanceTo bytes scanner stop
  else
    let span ← phpSpan source scanner.cursor b
    let emitted ← emit source scanner span.kind span.stop
    return { emitted with mode := span.mode }

def step (source : String) (scanner : Scanner) : Except Fault Scanner :=
  match scanner.mode with
  | .html => scanHtml source scanner
  | .php => scanPhp source scanner

def run (source : String) : (steps : Nat) → Scanner → Except Fault Scanner
  | 0, scanner =>
    if scanner.cursor < (ofString source).length then .error .unfinished else .ok scanner
  | steps + 1, scanner =>
    if scanner.cursor < (ofString source).length then do
      run source steps (← step source scanner)
    else .ok scanner

def isAnonymous (tokens : Array Token) (index : Nat) : Except Fault Bool := do
  let rest ← tokensFrom tokens (index + 1)
  match rest.filter (·.kind != .comment) with
  | [] => return false
  | next :: more =>
    return next.kind == .openParen ||
      (next.kind == .bitwiseAnd && more.head?.any (·.kind == .openParen))

def introducesAt (tokens : Array Token) : Option Nat → Except Fault Bool
  | none => return false
  | some index => do
    let token ← tokenAt tokens index
    return Lexeme.introducesName token.kind token.text

def kindAt (tokens : Array Token) (previous : Option Nat) (index : Nat) (token : Token) :
    Except Fault Kind := do
  let introduced ← introducesAt tokens previous
  if introduced && token.text.head?.any isWordStart then return .identifier
  else if token.kind == .function then
    let anonymous ← isAnonymous tokens index
    return if anonymous then .closure else .function
  else return token.kind

def reclassifyAt (state : Array Token × Option Nat) (index : Nat) :
    Except Fault (Array Token × Option Nat) := do
  let (tokens, previous) := state
  let token ← tokenAt tokens index
  if token.kind == .comment then return state
  else
    let kind ← kindAt tokens previous index token
    let updated ← amend tokens index ({ · with kind })
    return (updated, some index)

def reclassify (tokens : Array Token) : Except Fault (Array Token) := do
  let (updated, _) ← (List.range tokens.size).foldlM reclassifyAt (tokens, none)
  return updated

-- The tokens of a source. Every step gets past at least one byte, so there are as many steps as
-- bytes to spend.
def tokenize (source : String) : Except Fault (List Token) := do
  let scanned ← run source (ofString source).length start
  let tokens ← reclassify scanned.tokens
  return tokens.toList

end Scanner

end CognitiveComplexity
