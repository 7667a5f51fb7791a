import SqlSelect.Binary64.Nearest

/-!
# Shortest decimals

The shortest decimal of a positive real is the one with the fewest digits that is rounded back to
it, and among those the nearest to it. For each count of digits only the two neighbours of the
real on that decimal grid need to be tried: if any point of the grid is rounded back, so is one of
them. Two neighbours that are equally near are told apart by a rule of the caller. Seventeen
digits always suffice.
-/

namespace SqlSelect

/-- Which of two equally near decimals is chosen. -/
inductive TieRule where
  /-- The one whose last digit is even. -/
  | toEven
  /-- The one that is further from zero. -/
  | awayFromZero
deriving DecidableEq

/-- A positive decimal whose first digit has the weight `10 ^ exponent`. -/
structure ScientificDecimal where
  digits : List Digit
  exponent : Int
deriving DecidableEq

namespace Binary64

/-- The power of ten at the first digit of a positive quotient. -/
def leadingExponent (num den : Nat) : Int :=
  if den ≤ num then (Digits.ofNat (num / den)).length - 1
  else -((Digits.ofNat ((den - 1) / num)).length : Int)

/-- A quotient in units of a power of ten. -/
def inUnits (num den : Nat) (unit : Int) : Nat × Nat :=
  if 0 ≤ unit then (num, den * tenPow unit.toNat) else (num * tenPow (-unit).toNat, den)

/-- Whether `coefficient * 10 ^ unit` is rounded to the given magnitude. -/
def roundsTo (magnitude coefficient : Nat) (unit : Int) : Bool :=
  if 0 ≤ unit then nearestMagnitude (coefficient * tenPow unit.toNat) 1 = magnitude
  else nearestMagnitude coefficient (tenPow (-unit).toNat) = magnitude

/-- The neighbour of a magnitude on the grid of a power of ten that is rounded back to it; of two
the nearer. -/
def onGrid? (tie : TieRule) (magnitude : Nat) (unit : Int) : Option Nat :=
  let (num, den) := inUnits (steps magnitude) stepsPerUnit unit
  let low := num / den
  let rest := 2 * (num % den)
  let lowFits := roundsTo magnitude low unit
  let highFits := roundsTo magnitude (low + 1) unit
  if lowFits && highFits then
    if rest < den then some low
    else if den < rest then some (low + 1)
    else
      match tie with
      | .toEven => some (if low % 2 = 0 then low else low + 1)
      | .awayFromZero => some (low + 1)
  else if lowFits then some low
  else if highFits then some (low + 1)
  else none

/-- The first hit among the grids with `count`, `count + 1`, … digits, as a coefficient and its
power of ten. -/
def searchGrids (tie : TieRule) (magnitude : Nat) (leading : Int) (count : Nat) :
    Nat → Option (Nat × Int)
  | 0 => none
  | tries + 1 =>
    let unit := leading - count + 1
    match onGrid? tie magnitude unit with
    | some coefficient => some (coefficient, unit)
    | none => searchGrids tie magnitude leading (count + 1) tries

/-- A coefficient and a power of ten as digits without trailing zeros. -/
def scientific (coefficient : Nat) (unit : Int) : ScientificDecimal :=
  let digits := Digits.ofNat coefficient
  ⟨Digits.stripTrailingZeros digits, unit + (digits.length - 1)⟩

/-- The exact decimal of a magnitude: 2^-1074 is a whole number of units of 10^-1074. -/
def exactDecimal (magnitude : Nat) : Nat × Int :=
  (steps magnitude * (tenPow 1074 / stepsPerUnit), -1074)

/-- The fewest digits that are rounded back to a positive magnitude, as near to it as they get.

The exact decimal stands behind the search, so what is found is rounded back in any case. -/
def shortest (tie : TieRule) (magnitude : Nat) : ScientificDecimal :=
  let leading := leadingExponent (steps magnitude) stepsPerUnit
  let (coefficient, unit) := (searchGrids tie magnitude leading 1 17).getD (exactDecimal magnitude)
  scientific coefficient unit

end Binary64

end SqlSelect
