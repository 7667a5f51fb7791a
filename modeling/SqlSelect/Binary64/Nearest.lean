import SqlSelect.Binary64.Basic
import SqlSelect.Decimal.Numeral

/-!
# The nearest real

A quotient of natural numbers is rounded to the nearest binary64 magnitude, and a quotient
halfway between two goes to the one with the even word. The quotient is first measured in steps
of 2^-1074; the spacing of the reals there is a power of two, chosen so that 53 bits are left.
A rounded-up significand of 54 bits carries into the exponent field by itself, because a word is
the exponent field times 2^52 plus the significand. Reading a decimal rounds its exact value
once and fails if that lies beyond the largest finite real.
-/

namespace SqlSelect

/-- The natural number nearest to a quotient; halfway goes to the even neighbour. -/
def roundHalfEven (num den : Nat) : Nat :=
  let low := num / den
  let rest := 2 * (num % den)
  if rest < den then low
  else if den < rest then low + 1
  else if low % 2 = 0 then low else low + 1

namespace Binary64

/-- How many bits a number has beyond 53. -/
def excessBits (number : Nat) : Nat := if number < 2 * fractionUnit then 0 else number.log2 - 52

/-- The magnitude nearest to a quotient, as if the exponent field had no upper end. -/
def nearestMagnitude (num den : Nat) : Nat :=
  let spacing := excessBits (num * stepsPerUnit / den)
  spacing * fractionUnit + roundHalfEven (num * stepsPerUnit) (den * twoPow spacing)

/-- The real nearest to a quotient, if it is not beyond the largest finite one. -/
def ofQuotient? (negative : Bool) (num den : Nat) : Option Binary64 :=
  let magnitude := nearestMagnitude num den
  if magnitude < infiniteMagnitude then some (ofParts negative magnitude) else none

/-- The real nearest to `coefficient * 10 ^ scale`, if it is not beyond the largest finite one.

Every number from 10^310 on is beyond it and every number below 10^-330 is nearest to zero, so
the powers of ten stay small whatever scale is written. -/
def ofDecimal? (negative : Bool) (coefficient : Nat) (scale : Int) : Option Binary64 :=
  let top := scale + (Digits.ofNat coefficient).length
  if coefficient = 0 ∨ top < -330 then some (ofParts negative 0)
  else if 310 < top then none
  else if 0 ≤ scale then ofQuotient? negative (coefficient * tenPow scale.toNat) 1
  else ofQuotient? negative coefficient (tenPow (-scale).toNat)

end Binary64

/-- The real nearest to a numeral, if it is not beyond the largest finite one. It is an assumption on
readers of numbers that they find the nearest one, however many digits are written. -/
def Numeral.toBinary64? (numeral : Numeral) : Option Binary64 :=
  Binary64.ofDecimal? numeral.negative numeral.coefficient numeral.scale

end SqlSelect
