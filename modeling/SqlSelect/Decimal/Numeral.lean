import SqlSelect.Decimal.Digit

/-!
# Numerals

A numeral is a decimal number as it is written: a sign, the digits before and after the point,
and a power of ten. Different numerals may have the same value, so `1`, `1.0` and `1e0` stay
apart; which of them are integers is a question about the writing.
-/

namespace SqlSelect

/-- A written decimal number. -/
structure Numeral where
  /-- Whether a minus sign stands in front. -/
  negative : Bool
  /-- The digits before the point. -/
  whole : List Digit
  /-- The digits after the point; without any there is no point. -/
  fraction : List Digit
  /-- The power of ten, if one is written. -/
  exponent : Option Int
deriving DecidableEq

namespace Numeral

/-- An integer without a point or an exponent. -/
def ofInt (number : Int) : Numeral := ⟨decide (number < 0), Digits.ofNat number.natAbs, [], none⟩

/-- The integer that is written without a point or an exponent. Minus zero is no integer: the
sign of a zero can be kept by a real only. -/
def toInt? (numeral : Numeral) : Option Int :=
  if numeral.fraction = [] ∧ numeral.exponent = none then
    let magnitude := Digits.value numeral.whole
    if numeral.negative then
      if magnitude = 0 then none else some (-(magnitude : Int))
    else some magnitude
  else none

/-- All digits, as one integer. -/
def coefficient (numeral : Numeral) : Nat := Digits.value (numeral.whole ++ numeral.fraction)

/-- The power of ten by which the coefficient is multiplied. -/
def scale (numeral : Numeral) : Int := numeral.exponent.getD 0 - numeral.fraction.length

/-- A minus sign for a negative number. -/
def signText (negative : Bool) : List Char := if negative then ['-'] else []

/-- The text of an exponent; `plus` tells whether a plus sign is written. -/
def exponentText (plus : Bool) (exponent : Int) : List Char :=
  'e' :: (if exponent < 0 then ['-'] else if plus then ['+'] else []) ++
    Digits.text (Digits.ofNat exponent.natAbs)

/-- The text of a numeral; `plus` tells whether an exponent that is not negative has a plus sign. -/
def text (plus : Bool) (numeral : Numeral) : List Char :=
  signText numeral.negative ++ Digits.text numeral.whole ++
    (if numeral.fraction = [] then [] else '.' :: Digits.text numeral.fraction) ++
    (match numeral.exponent with
      | none => []
      | some exponent => exponentText plus exponent)

/-- The text of an integer in decimal digits. -/
def integerText (number : Int) : List Char := (ofInt number).text false

@[simp] theorem toInt?_ofInt (number : Int) : (ofInt number).toInt? = some number := by
  simp only [ofInt, toInt?, and_self, if_true, Digits.value_ofNat]
  by_cases h : number < 0
  · simp only [h, decide_true, if_true]
    rw [if_neg (by omega)]
    congr 1
    omega
  · simp only [h, decide_false]
    simp only [Bool.false_eq_true, if_false]
    congr 1
    omega

end Numeral

end SqlSelect
