import CognitiveComplexity.Glob.Token

set_option autoImplicit false

namespace CognitiveComplexity

namespace Glob

inductive Fault where
  | unclosedClass
  | invalidRange (low high : Char)
  | unopenedGroup
  | unclosedGroup
  | danglingEscape
  deriving DecidableEq, Repr

structure Error where
  glob : String
  fault : Fault
  deriving DecidableEq, Repr

def Fault.message : Fault → String
  | .unclosedClass => "unclosed character class; missing ']'"
  | .invalidRange low high =>
    "invalid range; '" ++ String.singleton low ++ "' > '" ++ String.singleton high ++ "'"
  | .unopenedGroup =>
    "unopened alternate group; missing '\x7b' (maybe escape '\x7d' with '[\x7d]'?)"
  | .unclosedGroup =>
    "unclosed alternate group; missing '\x7d' (maybe escape '\x7b' with '[\x7b]'?)"
  | .danglingEscape => "dangling '\\'"

def Error.message (error : Error) : String :=
  "error parsing glob '" ++ error.glob ++ "': " ++ error.fault.message

/-- The ranges of a class, last one first, and the number of characters through its closing bracket;
nothing if there is none. A bracket is literal at the start, and so is a dash at either end. -/
def classRanges (first : Bool) (pending : Bool) (ranges : List (Char × Char)) (count : Nat) :
    List Char → Except Fault (Option (List (Char × Char) × Nat))
  | [] => .ok none
  | c :: rest =>
    if c == ']' && !first then
      .ok (some (if pending then ('-', '-') :: ranges else ranges, count + 1))
    else if c == '-' && !first && !pending then classRanges false true ranges (count + 1) rest
    else match pending, ranges with
      | true, (low, _) :: others =>
        if c < low then .error (.invalidRange low c)
        else classRanges false false ((low, c) :: others) (count + 1) rest
      | _, _ => classRanges false false ((c, c) :: ranges) (count + 1) rest

def class? (rest : List Char) : Except Fault (Option (Token × Nat)) := do
  let negated := rest.head?.any fun c => c == '!' || c == '^'
  let skipped := if negated then 1 else 0
  let found ← classRanges true false [] skipped (rest.drop skipped)
  return found.map fun (ranges, count) => (.choice negated ranges.reverse, count)

/-- An alternation that is still open: the alternatives read so far, last one first, and the tokens
around it, last one first. -/
structure Group where
  alternatives : List Pattern
  around : List Token
  deriving Repr

structure Reader where
  -- The tokens of the innermost alternative, last one first.
  tokens : List Token
  groups : List Group
  previous : Option Char
  -- Whether an unclosed class was met, behind which every bracket is literal.
  literalBrackets : Bool
  deriving Repr

namespace Reader

def start : Reader := ⟨[], [], none, false⟩

def push (reader : Reader) (token : Token) (c : Char) : Reader :=
  { reader with tokens := token :: reader.tokens, previous := some c }

def branch (reader : Reader) (dialect : Dialect) : Pattern :=
  branchPattern dialect reader.tokens.reverse

def openGroup (reader : Reader) : Reader :=
  { reader with
    tokens := []
    groups := ⟨[], reader.tokens⟩ :: reader.groups
    previous := some '\x7b' }

def comma (reader : Reader) (dialect : Dialect) : Reader :=
  match reader.groups with
  | [] => reader.push (.literal ',') ','
  | group :: outer =>
    { reader with
      tokens := []
      groups := { group with alternatives := reader.branch dialect :: group.alternatives } :: outer
      previous := some ',' }

def closeGroup (reader : Reader) (dialect : Dialect) : Except Fault Reader :=
  match reader.groups with
  | [] => .error .unopenedGroup
  | group :: outer =>
    let alternatives := (reader.branch dialect :: group.alternatives).reverse
    .ok { reader with
      tokens := .group (.anyOf alternatives) :: group.around
      groups := outer
      previous := some '\x7d' }

-- Two stars that are no whole path component.
def twoStars (reader : Reader) : Reader := (reader.push .star '*').push .star '*'

/-- Two stars before `rest`, and whether they take the slash behind them too. -/
def doubleStar (reader : Reader) (rest : List Char) : Reader × Bool :=
  let grouped := !reader.groups.isEmpty
  let beforeSlash := rest.head? == some '/'
  let last := if beforeSlash then '/' else '*'
  if reader.tokens.isEmpty then
    if rest.isEmpty || beforeSlash then (reader.push .leadingStars last, beforeSlash)
    else (reader.twoStars, false)
  else if !(reader.previous == some '/' ||
      (grouped && (reader.previous == some ',' || reader.previous == some '\x7b'))) then
    (reader.twoStars, false)
  else if rest.isEmpty || beforeSlash ||
      (grouped && (rest.head? == some ',' || rest.head? == some '\x7d')) then
    let token := match reader.tokens with
      | .leadingStars :: _ => .leadingStars
      | .trailingStars :: _ => .trailingStars
      | _ => if beforeSlash then .innerStars else .trailingStars
    (({ reader with tokens := reader.tokens.tail }).push token last, beforeSlash)
  else (reader.twoStars, false)

def read (dialect : Dialect) (reader : Reader) (text : List Char) : Except Fault Reader :=
  match text with
  | [] => .ok reader
  | '?' :: rest => read dialect (reader.push .any '?') rest
  | '*' :: '*' :: rest =>
    let (next, slash) := reader.doubleStar rest
    read dialect next (if slash then rest.tail else rest)
  | '*' :: rest => read dialect (reader.push .star '*') rest
  | '\x7b' :: rest => read dialect reader.openGroup rest
  | '\x7d' :: rest => do
    let next ← reader.closeGroup dialect
    read dialect next rest
  | ',' :: rest => read dialect (reader.comma dialect) rest
  | '\\' :: c :: rest => read dialect (reader.push (.literal c) c) rest
  | ['\\'] => .error .danglingEscape
  | c :: rest =>
    if c == '[' && !reader.literalBrackets then do
      match ← class? rest with
      | some (token, count) => read dialect (reader.push token ']') (rest.drop count)
      | none =>
        if dialect.unclosedIsLiteral then
          read dialect { reader.push (.literal '[') '[' with literalBrackets := true } rest
        else .error .unclosedClass
    else read dialect (reader.push (.literal c) c) rest
termination_by text.length
decreasing_by
  all_goals simp only [List.length_drop, List.length_cons]
  any_goals omega
  split
  · rw [List.length_tail]; omega
  · omega

end Reader

end Glob

structure Glob where
  pattern : Pattern
  decidedByName : Bool
  deriving Repr

namespace Glob

def read (dialect : Dialect) (text : String) : Except Error Glob := do
  let fail := fun fault => Error.mk text fault
  let reader ← (Reader.read dialect .start text.toList).mapError fail
  if !reader.groups.isEmpty then throw (fail .unclosedGroup)
  let tokens := reader.tokens.reverse
  return ⟨wholePattern dialect tokens, isDecidedByName dialect tokens⟩

def accepts (glob : Glob) (path : Bytes) : Bool :=
  !(glob.decidedByName && path.getLast? == some Byte.dot) && glob.pattern.accepts path

end Glob

end CognitiveComplexity
