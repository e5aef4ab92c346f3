import CognitiveComplexity.Glob.Pattern

set_option autoImplicit false

namespace CognitiveComplexity.Glob

structure Dialect where
  -- Whether `?` and `*` match a slash.
  crossesSlash : Bool
  -- Whether a class that is never closed is a literal bracket instead of a fault.
  unclosedIsLiteral : Bool
  deriving DecidableEq, Repr

def Dialect.skip : Dialect := ⟨true, false⟩

def Dialect.ignore : Dialect := ⟨false, true⟩

inductive Token where
  | literal (c : Char)
  | any
  | star
  | leadingStars
  | trailingStars
  | innerStars
  | choice (negated : Bool) (ranges : List (Char × Char))
  | group (pattern : Pattern)
  deriving DecidableEq, Repr

def charBytes (c : Char) : Bytes := Bytes.ofString (String.singleton c)

/-- The bytes a range of characters contributes to a class: all bytes of both ends, and the range
from the last byte of the one to the first byte of the other. -/
def rangeBytes (low high : Char) : List (UInt8 × UInt8) :=
  if low == high then (charBytes low).map fun b => (b, b)
  else
    let first := charBytes low
    let last := charBytes high
    first.dropLast.map (fun b => (b, b)) ++
      [(first.getLastD 0, last.headD 0)] ++
      last.tail.map fun b => (b, b)

namespace Token

def isLiteral : Token → Bool
  | .literal _ => true
  | _ => false

def isName : Token → Bool
  | .literal c => c != '/'
  | _ => false

def wild (dialect : Dialect) : ByteSet :=
  if dialect.crossesSlash then .all else .allBut Byte.slash

def slash : Pattern := .one (.single Byte.slash)

def anything : Pattern := .many .all

def pattern (dialect : Dialect) : Token → Pattern
  | .literal c => .ofBytes (charBytes c)
  | .any => .one (wild dialect)
  | .star => .many (wild dialect)
  | .leadingStars => .either (.either .empty slash) (.chain anything slash)
  | .trailingStars => .chain slash anything
  | .innerStars => .either slash (.chain slash (.chain anything slash))
  | .choice negated ranges =>
    .one ⟨negated, ranges.flatMap fun (low, high) => rangeBytes low high⟩
  | .group pattern => pattern

end Token

def branchPattern (dialect : Dialect) (tokens : List Token) : Pattern :=
  tokens.foldr (fun token pattern => (token.pattern dialect).append pattern) .empty

/-- The pattern of a whole glob. Leading stars alone match everything. -/
def wholePattern (dialect : Dialect) (tokens : List Token) : Pattern :=
  if tokens == [.leadingStars] then Token.anything else branchPattern dialect tokens

-- A path that ends in a dot has no last name and no extension. Globs that are decided by the last
-- name or by its extension alone never match such a path, whatever their pattern says.
def isLastName : List Token → Bool
  | .leadingStars :: names => !names.isEmpty && names.all Token.isName
  | _ => false

def isExtensionText (tokens : List Token) : Bool :=
  tokens.all fun token => token.isName && token != .literal '.'

-- `*.extension`, also behind leading stars.
def isExtension (dialect : Dialect) : List Token → Bool
  | .leadingStars :: .star :: .literal '.' :: extension => isExtensionText extension
  | .star :: .literal '.' :: extension => dialect.crossesSlash && isExtensionText extension
  | _ => false

def isEnding (dialect : Dialect) (tokens : List Token) : Bool :=
  let inner := match tokens with
    | .leadingStars :: rest => rest
    | _ => tokens
  match inner with
  | .star :: text => dialect.crossesSlash && text.all Token.isLiteral
  | text => text.all Token.isLiteral

def requiresExtension (tokens : List Token) : Bool :=
  (tokens.reverse.dropWhile fun token => token.isName && token != .literal '.').head? ==
    some (.literal '.')

def isDecidedByName (dialect : Dialect) (tokens : List Token) : Bool :=
  isLastName tokens || isExtension dialect tokens ||
    (requiresExtension tokens && !isEnding dialect tokens)

end CognitiveComplexity.Glob
