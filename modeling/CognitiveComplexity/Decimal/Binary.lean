set_option autoImplicit false

namespace CognitiveComplexity

/-- The value `mantissa * 2 ^ exponent`, with a mantissa below `2 ^ 53` and an exponent from -1074
on. -/
structure Binary where
  mantissa : Nat
  exponent : Int
  deriving DecidableEq, Repr, Inhabited

namespace Binary

def zero : Binary := ⟨0, -1074⟩

def leastNormal : Nat := Nat.pow 2 52

def ratio (value : Binary) : Nat × Nat :=
  (value.mantissa * Nat.pow 2 value.exponent.toNat, Nat.pow 2 (-value.exponent).toNat)

def roundQuotient (numerator denominator : Nat) : Nat :=
  let quotient := numerator / denominator
  let twice := 2 * (numerator % denominator)
  if twice < denominator || (twice == denominator && quotient % 2 == 0) then quotient
  else quotient + 1

-- The greatest `k` with `2 ^ k ≤ numerator / denominator`, for a positive quotient.
def floorLog (numerator denominator : Nat) : Int :=
  let estimate : Int := (numerator.log2 : Int) - denominator.log2
  if denominator * Nat.pow 2 estimate.toNat ≤ numerator * Nat.pow 2 (-estimate).toNat then estimate
  else estimate - 1

def ofRatio? (numerator denominator : Nat) : Option Binary :=
  if numerator == 0 then some zero
  else
    let exponent := max (floorLog numerator denominator - 52) (-1074)
    let mantissa := roundQuotient (numerator * Nat.pow 2 (-exponent).toNat)
      (denominator * Nat.pow 2 exponent.toNat)
    let value : Binary :=
      if mantissa == 2 * leastNormal then ⟨leastNormal, exponent + 1⟩ else ⟨mantissa, exponent⟩
    if value.exponent ≤ 971 then some value else none

def ofRatio (numerator denominator : Nat) : Binary := (ofRatio? numerator denominator).getD zero

/-- The nearest value to a decimal of so many digits, if it is not beyond the greatest one.
Exponents far outside the range are settled without computing the power. -/
def ofScientific? (digits : Nat) (exponent : Int) : Option Binary :=
  let size := (Nat.toDigits 10 digits).length
  if digits == 0 then some zero
  else if exponent + size > 400 then none
  else if exponent + size < -400 then some zero
  else ofRatio? (digits * Nat.pow 10 exponent.toNat) (Nat.pow 10 (-exponent).toNat)

def le (left right : Binary) : Bool :=
  let (leftNumerator, leftDenominator) := left.ratio
  let (rightNumerator, rightDenominator) := right.ratio
  leftNumerator * rightDenominator ≤ rightNumerator * leftDenominator

end Binary

end CognitiveComplexity
