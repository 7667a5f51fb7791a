import SqlSelect.Calendar.Read
import SqlSelect.Calendar.Written
import SqlSelect.Proofs.Decimal.Digit

/-!
# Reading timestamps back

The exact text of a timestamp is read as that timestamp. Every part is written in so many digits
that a reader of at most two, or four, digits takes all of them, and a year that needs more has the
sign that lifts the limit. The fraction holds all of the nanoseconds in three, six or nine digits.
-/

namespace SqlSelect

/-- As many digits as a limit allows are read, or fewer if no digit follows them. -/
theorem Digits.scanUpTo_text {limit : Nat} {digits : List Digit} (hlimit : digits.length ≤ limit)
    {rest : List Char}
    (h : digits.length = limit ∨ ∀ c ∈ rest.head?, Digit.ofChar? c = none) :
    Digits.scanUpTo limit (Digits.text digits ++ rest) = (digits, rest) := by
  induction digits generalizing limit with
  | nil =>
    cases limit with
    | zero => rfl
    | succ limit =>
      cases rest with
      | nil => rfl
      | cons c tail =>
        have hc : Digit.ofChar? c = none := by simpa using h
        simp [Digits.text, Digits.scanUpTo, hc]
  | cons digit others ih =>
    cases limit with
    | zero => simp at hlimit
    | succ limit =>
      simp only [List.length_cons, Nat.add_le_add_iff_right, Nat.add_right_cancel_iff] at hlimit h
      have hothers := ih hlimit h
      rw [Digits.text] at hothers
      rw [Digits.text, List.map_cons, List.cons_append, Digits.scanUpTo, Digit.ofChar?_char]
      simp only [hothers]

/-- No digit is blank, and none is a sign. -/
theorem Digit.char_plain (digit : Digit) :
    isBlank digit.char = false ∧ digit.char ≠ '-' ∧ digit.char ≠ '+' := by
  revert digit; decide

/-- Nothing is skipped where no blank character comes first. -/
theorem skipBlanks_cons {c : Char} (h : isBlank c = false) (rest : List Char) :
    skipBlanks (c :: rest) = c :: rest := by
  simp [skipBlanks, h]

/-- Nothing is skipped in front of digits. -/
theorem skipBlanks_digits {digits : List Digit} (hne : digits ≠ []) (rest : List Char) :
    skipBlanks (Digits.text digits ++ rest) = Digits.text digits ++ rest := by
  cases digits with
  | nil => exact absurd rfl hne
  | cons first others => exact skipBlanks_cons (Digit.char_plain first).1 _

namespace Timestamp

/-- Written digits are read back within a limit. -/
theorem readDigits_text {limit : Nat} {digits : List Digit} (hne : digits ≠ [])
    (hlimit : digits.length ≤ limit) {rest : List Char}
    (h : digits.length = limit ∨ ∀ c ∈ rest.head?, Digit.ofChar? c = none) :
    readDigits limit (Digits.text digits ++ rest) = some (digits, rest) := by
  rw [readDigits, Digits.scanUpTo_text hlimit h]
  exact if_neg hne

/-- A number below one hundred is read back from its two digits, whatever follows. -/
theorem readNumber_twoDigits {number : Nat} (h : number < 100) (rest : List Char) :
    readNumber 2 (twoDigits number ++ rest) = some (number, rest) := by
  have hne := Digits.padded_ne_nil 2 number
  have hlength : (Digits.padded 2 number).length = 2 := Digits.length_padded (by decide) h
  rw [readNumber, twoDigits, skipBlanks_digits hne,
    readDigits_text hne (Nat.le_of_eq hlength) (.inl hlength), Option.map_some,
    Digits.value_padded]

/-- A mark that is not blank is read back. -/
theorem readMark_cons {mark : Char} (h : isBlank mark = false) (rest : List Char) :
    readMark mark (mark :: rest) = some rest := by
  rw [readMark, skipBlanks_cons h]
  exact if_pos rfl

/-- A year is read back where no digit follows it. -/
theorem readYear_yearText (year : Int) {rest : List Char}
    (h : ∀ c ∈ rest.head?, Digit.ofChar? c = none) :
    readYear (yearText year ++ rest) = some (year, rest) := by
  have hne := Digits.padded_ne_nil 4 year.natAbs
  have hvalue := Digits.value_padded 4 year.natAbs
  have hsigned : readDigits (Digits.text (Digits.padded 4 year.natAbs) ++ rest).length
      (Digits.text (Digits.padded 4 year.natAbs) ++ rest) =
        some (Digits.padded 4 year.natAbs, rest) := by
    refine readDigits_text hne ?_ (.inr h)
    simp [Digits.text]
  rw [yearText]
  by_cases hneg : year < 0
  · rw [if_pos hneg, List.cons_append, List.nil_append, List.cons_append, readYear,
      skipBlanks_cons (by decide)]
    simp only [if_true, hsigned, Option.map_some, hvalue]
    congr 2
    omega
  · have habs : (year.natAbs : Int) = year := by omega
    by_cases hlong : 9999 < year
    · rw [if_neg hneg, if_pos hlong, List.cons_append, List.nil_append, List.cons_append, readYear,
        skipBlanks_cons (by decide)]
      simp only [Char.reduceEq, if_false, if_true, hsigned, Option.map_some, hvalue, habs]
    · have hlength : (Digits.padded 4 year.natAbs).length = 4 :=
        Digits.length_padded (by decide) (show year.natAbs < 10000 by omega)
      have hread : readDigits 4 (Digits.text (Digits.padded 4 year.natAbs) ++ rest) =
          some (Digits.padded 4 year.natAbs, rest) :=
        readDigits_text hne (Nat.le_of_eq hlength) (.inl hlength)
      rw [if_neg hneg, if_neg hlong, List.nil_append, readYear, skipBlanks_digits hne]
      cases hdigits : Digits.padded 4 year.natAbs with
      | nil => exact absurd hdigits hne
      | cons first others =>
        obtain ⟨-, hminus, hplus⟩ := Digit.char_plain first
        rw [hdigits] at hread hvalue
        simp only [Digits.text, List.map_cons, List.cons_append] at hread ⊢
        simp only [hminus, hplus, if_false, hread, Option.map_some, hvalue, habs]

/-- A group of digits after the point is read back as nanoseconds. -/
theorem readFraction_padded {width number : Nat} (hwidth : 0 < width) (hmost : width ≤ 9)
    (h : number < tenPow width) :
    readFraction ('.' :: Digits.text (Digits.padded width number)) =
      some (number * tenPow (9 - width), []) := by
  have hlength := Digits.length_padded hwidth h
  have hread : readDigits 9 (Digits.text (Digits.padded width number) ++ []) =
      some (Digits.padded width number, []) :=
    readDigits_text (Digits.padded_ne_nil width number) (by omega) (.inr (by simp))
  rw [List.append_nil] at hread
  simp [readFraction, hread, hlength, Digits.value_padded, Digits.scan]

/-- The decimals of a second are read back. -/
theorem readFraction_fractionText {nano : Nat} (h : nano < 1000000000) :
    readFraction (fractionText nano) = some (nano, []) := by
  unfold fractionText
  split
  · next hzero => rw [hzero]; rfl
  split
  · next hmilli =>
    rw [readFraction_padded (by decide) (by decide) (show nano / 1000000 < 1000 by omega)]
    have hnano : nano / 1000000 * tenPow 6 = nano :=
      Nat.div_mul_cancel (Nat.dvd_of_mod_eq_zero hmilli)
    rw [hnano]
  split
  · next hmicro =>
    rw [readFraction_padded (by decide) (by decide) (show nano / 1000 < 1000000 by omega)]
    have hnano : nano / 1000 * tenPow 3 = nano :=
      Nat.div_mul_cancel (Nat.dvd_of_mod_eq_zero hmicro)
    rw [hnano]
  · rw [readFraction_padded (by decide) (by decide) h]
    exact congrArg (fun nano => some (nano, [])) (Nat.mul_one nano)

/-- No month is longer than 31 days. -/
theorem daysInMonth_le (year : Int) (month : Nat) : daysInMonth year month ≤ 31 := by
  unfold daysInMonth
  grind

/-- The exact text of a timestamp is read back. -/
theorem read?_exactText (t : Timestamp) : read? t.exactText = some t := by
  have hmonth := t.month_range
  have hday : t.day ≤ 31 := Nat.le_trans t.day_range.2 (daysInMonth_le t.year t.month)
  have hyear : ∀ rest, readYear (yearText t.year ++ '-' :: rest) = some (t.year, '-' :: rest) := by
    intro rest
    apply readYear_yearText
    intro c hc
    obtain rfl : '-' = c := Option.some.inj hc
    decide
  have hblank : isBlank '-' = false ∧ isBlank 'T' = false ∧ isBlank ':' = false := by decide
  simp only [read?, exactText, dayText, clockText, List.append_assoc, List.cons_append, hyear,
    Option.bind_eq_bind, Option.bind_some, readMark_cons, hblank,
    readNumber_twoDigits (show t.month < 100 by omega),
    readNumber_twoDigits (show t.day < 100 by omega),
    readNumber_twoDigits (show t.hour < 100 by have := t.hour_lt; omega),
    readNumber_twoDigits (show t.minute < 100 by have := t.minute_lt; omega),
    readNumber_twoDigits (show t.second < 100 by have := t.second_le; omega),
    readFraction_fractionText t.nano_lt]
  simp [skipBlanks]

end Timestamp

end SqlSelect
