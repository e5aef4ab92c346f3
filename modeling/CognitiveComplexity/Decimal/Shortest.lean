import CognitiveComplexity.Decimal.Binary

set_option autoImplicit false

namespace CognitiveComplexity

structure Decimal where
  digits : Nat
  exponent : Int
  deriving DecidableEq, Repr, Inhabited

namespace Decimal

def digitTexts (value : Nat) : List Char := Nat.toDigits 10 value

def floorLog (numerator denominator : Nat) : Int :=
  if denominator ≤ numerator then ((digitTexts (numerator / denominator)).length : Int) - 1
  else -((digitTexts ((denominator + numerator - 1) / numerator - 1)).length : Int)

/-- A value in quarters of the distance to its neighbours: itself, and the ends of the interval of
numbers that round to it. -/
structure Interval where
  quarter : Nat × Nat
  value : Nat
  low : Nat
  high : Nat
  -- Whether the ends themselves round to the value.
  closed : Bool

def interval (value : Binary) : Interval :=
  let narrow := value.mantissa == Binary.leastNormal && decide (-1074 < value.exponent)
  { quarter := (Nat.pow 2 (value.exponent - 2).toNat, Nat.pow 2 (2 - value.exponent).toNat)
    value := 4 * value.mantissa
    low := 4 * value.mantissa - (if narrow then 1 else 2)
    high := 4 * value.mantissa + 2
    closed := value.mantissa % 2 == 0 }

namespace Interval

def compare (interval : Interval) (decimal : Decimal) (quarters : Nat) : Ordering :=
  let (numerator, denominator) := interval.quarter
  Ord.compare (decimal.digits * Nat.pow 10 decimal.exponent.toNat * denominator)
    (quarters * numerator * Nat.pow 10 (-decimal.exponent).toNat)

def contains (interval : Interval) (decimal : Decimal) : Bool :=
  match interval.compare decimal interval.low, interval.compare decimal interval.high with
  | .gt, .lt => true
  | .eq, _ => interval.closed
  | _, .eq => interval.closed
  | _, _ => false

/-- Of the two decimals around the value on the grid of `10 ^ exponent`, the nearest in the
interval. -/
def onGrid? (interval : Interval) (exponent : Int) : Option Decimal :=
  let (numerator, denominator) := interval.quarter
  let dividend := interval.value * numerator * Nat.pow 10 (-exponent).toNat
  let divisor := denominator * Nat.pow 10 exponent.toNat
  let below : Decimal := ⟨dividend / divisor, exponent⟩
  let above : Decimal := ⟨dividend / divisor + 1, exponent⟩
  let nearest := Binary.roundQuotient dividend divisor
  match interval.contains below, interval.contains above with
  | true, true => some ⟨nearest, exponent⟩
  | true, false => some below
  | false, true => some above
  | false, false => none

end Interval

/-- The shortest decimal that reads back as the value; of those the nearest. The first grid has
one place more than the leading digit, for values just below a power of ten. -/
def shortest (value : Binary) : Decimal :=
  if value.mantissa == 0 then ⟨0, 0⟩
  else
    let (numerator, denominator) := value.ratio
    let leading := floorLog numerator denominator
    let grids := (List.range 18).map fun (count : Nat) => leading + 1 - (count : Int)
    (grids.findSome? (interval value).onGrid?).getD ⟨0, 0⟩

def zeros (count : Nat) : List Char := List.replicate count '0'

def positional (decimal : Decimal) : String :=
  let digits := digitTexts decimal.digits
  let point : Int := digits.length + decimal.exponent
  String.ofList <|
    if 0 ≤ decimal.exponent then digits ++ zeros decimal.exponent.toNat ++ ['.', '0']
    else if 0 < point then digits.take point.toNat ++ ['.'] ++ digits.drop point.toNat
    else ['0', '.'] ++ zeros (-point).toNat ++ digits

def scientific (decimal : Decimal) : String :=
  let digits := digitTexts decimal.digits
  let exponent := decimal.exponent + digits.length - 1
  let fraction := if digits.length == 1 then [] else '.' :: digits.tail
  String.ofList (digits.take 1 ++ fraction ++ ['e']) ++ toString exponent

def text (decimal : Decimal) : String :=
  let point : Int := (digitTexts decimal.digits).length + decimal.exponent
  if -5 < point ∧ point ≤ 16 then decimal.positional else decimal.scientific

-- The value to one decimal place, a tie to the even digit.
def onePlace (value : Binary) : String :=
  let (numerator, denominator) := value.ratio
  let tenths := Binary.roundQuotient (10 * numerator) denominator
  toString (tenths / 10) ++ "." ++ toString (tenths % 10)

end Decimal

end CognitiveComplexity
