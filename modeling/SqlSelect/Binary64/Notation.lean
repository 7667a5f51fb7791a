import SqlSelect.Binary64.Shortest

/-!
# Decimal notation of reals

A finite real is written with its shortest digits, either with the point at its place or with an
exponent. A notation says between which powers of ten the point is placed, whether an exponent
has a plus sign, and which of two equally near decimals is written. A number with the point at its
place always has a digit after the point.
-/

namespace SqlSelect

/-- The choices left to a format in writing a real. -/
structure DecimalNotation where
  /-- The least power of ten at the first digit for which no exponent is written. -/
  positionalFrom : Int
  /-- The least greater power of ten for which an exponent is written again. -/
  positionalBelow : Int
  /-- Whether an exponent that is not negative has a plus sign. -/
  plusSign : Bool
  /-- Which of two equally near shortest decimals is written. -/
  tie : TieRule

namespace DecimalNotation

/-- Digits with the point at its place. -/
def positional (negative : Bool) (decimal : ScientificDecimal) : Numeral :=
  if decimal.exponent < 0 then
    ⟨negative, [.zero], List.replicate (decimal.exponent.natAbs - 1) .zero ++ decimal.digits, none⟩
  else
    let places := decimal.exponent.toNat + 1
    let whole := decimal.digits.take places
    let fraction := decimal.digits.drop places
    ⟨negative, whole ++ List.replicate (places - decimal.digits.length) .zero,
      if fraction = [] then [.zero] else fraction, none⟩

/-- One digit before the point, and an exponent. -/
def exponential (negative : Bool) (decimal : ScientificDecimal) : Numeral :=
  ⟨negative, decimal.digits.take 1, decimal.digits.drop 1, some decimal.exponent⟩

/-- The numeral of a finite real. -/
def numeral (style : DecimalNotation) (x : Binary64) : Numeral :=
  if x.magnitude = 0 then ⟨x.negative, [.zero], [.zero], none⟩
  else
    let decimal := Binary64.shortest style.tie x.magnitude
    if style.positionalFrom ≤ decimal.exponent ∧ decimal.exponent < style.positionalBelow then
      positional x.negative decimal
    else exponential x.negative decimal

/-- The text of a finite real. -/
def text (style : DecimalNotation) (x : Binary64) : List Char :=
  (style.numeral x).text style.plusSign

end DecimalNotation

end SqlSelect
