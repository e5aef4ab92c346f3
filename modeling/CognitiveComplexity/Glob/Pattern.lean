import CognitiveComplexity.Byte

set_option autoImplicit false

/-!
Patterns over bytes, the meaning of globs. A pattern leads from points of a text to other points; it
accepts a text when it leads from the start to the end.
-/

namespace CognitiveComplexity

structure ByteSet where
  negated : Bool
  ranges : List (UInt8 × UInt8)
  deriving DecidableEq, Repr

namespace ByteSet

def contains (set : ByteSet) (b : UInt8) : Bool :=
  set.ranges.any (fun (low, high) => low ≤ b && b ≤ high) != set.negated

def all : ByteSet := ⟨true, []⟩

def single (b : UInt8) : ByteSet := ⟨false, [(b, b)]⟩

def allBut (b : UInt8) : ByteSet := ⟨true, [(b, b)]⟩

end ByteSet

inductive Pattern where
  | empty
  | one (set : ByteSet)
  | many (set : ByteSet)
  | chain (first second : Pattern)
  | either (first second : Pattern)
  deriving DecidableEq, Repr

namespace Pattern

/-- Goes on from the points reached so far over bytes of a set. The flag says whether the point
before was reached and can be left. -/
def spread (set : ByteSet) (carried : Bool) : Bytes → List Bool → List Bool
  | b :: text, point :: points =>
    let reached := carried || point
    reached :: spread set (reached && set.contains b) text points
  | [], point :: _ => [carried || point]
  | _, [] => []

/-- The points of a text that a pattern leads to from given points. There is a point before each
byte and one at the end. -/
def reach (text : Bytes) : Pattern → List Bool → List Bool
  | .empty, points => points
  | .one set, points => false :: List.zipWith (fun b point => point && set.contains b) text points
  | .many set, points => spread set false text points
  | .chain first second, points => reach text second (reach text first points)
  | .either first second, points =>
    List.zipWith or (reach text first points) (reach text second points)

def accepts (pattern : Pattern) (text : Bytes) : Bool :=
  (pattern.reach text (true :: text.map fun _ => false)).getLastD false

def append (first second : Pattern) : Pattern :=
  match first, second with
  | .empty, _ => second
  | _, .empty => first
  | _, _ => .chain first second

def ofBytes (bytes : Bytes) : Pattern :=
  bytes.foldr (fun b pattern => append (.one (.single b)) pattern) .empty

def anyOf (patterns : List Pattern) : Pattern :=
  match patterns.filter (· != .empty) with
  | [] => .empty
  | first :: others => others.foldl .either first

end Pattern

end CognitiveComplexity
