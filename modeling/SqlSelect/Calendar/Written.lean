import SqlSelect.Calendar.Timestamp
import SqlSelect.Decimal.Digit

/-!
# Written timestamps

A timestamp is written with its parts from the year down, padded with zeros to a fixed width. A
year outside 0 to 9999 has a sign and as many digits as it needs. The millisecond form cuts the
nanoseconds off after three digits; the exact form has no fraction, or three, six or nine digits,
whichever is the first to hold all of it.
-/

namespace SqlSelect.Timestamp

/-- Four digits, or a sign and at least four digits. -/
def yearText (year : Int) : List Char :=
  (if year < 0 then ['-'] else if 9999 < year then ['+'] else []) ++
    Digits.text (Digits.padded 4 year.natAbs)

/-- A number below one hundred in two digits. -/
def twoDigits (number : Nat) : List Char := Digits.text (Digits.padded 2 number)

/-- Year, month and day. -/
def dayText (t : Timestamp) : List Char :=
  yearText t.year ++ '-' :: twoDigits t.month ++ '-' :: twoDigits t.day

/-- Hour, minute and second. -/
def clockText (t : Timestamp) : List Char :=
  twoDigits t.hour ++ ':' :: twoDigits t.minute ++ ':' :: twoDigits t.second

/-- The day, a space, and the time of day cut off after three decimals. -/
def millisecondText (t : Timestamp) : List Char :=
  t.dayText ++ ' ' :: t.clockText ++ '.' :: Digits.text (Digits.padded 3 (t.nano / 1000000))

/-- The decimals of a second, in as few groups of three as hold all of them. -/
def fractionText (nano : Nat) : List Char :=
  if nano = 0 then []
  else if nano % 1000000 = 0 then '.' :: Digits.text (Digits.padded 3 (nano / 1000000))
  else if nano % 1000 = 0 then '.' :: Digits.text (Digits.padded 6 (nano / 1000))
  else '.' :: Digits.text (Digits.padded 9 nano)

/-- The day, the letter T, and the exact time of day. -/
def exactText (t : Timestamp) : List Char :=
  t.dayText ++ 'T' :: t.clockText ++ fractionText t.nano

end SqlSelect.Timestamp
