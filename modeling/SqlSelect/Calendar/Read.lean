import SqlSelect.Calendar.Timestamp
import SqlSelect.Decimal.Digit
import SqlSelect.Text.Blank

/-!
# Reading timestamps

A timestamp is read from its parts in order: year, `-`, month, `-`, day, `T`, hour, `:`, minute,
`:`, second, and an optional fraction. Blank characters may stand before every number and mark and
at the end, but not around the point of the fraction. A number takes at most two digits, a year at
most four unless a sign stands directly before them. Of a fraction the first nine digits count.
The parts must be in range, and nothing may follow.
-/

namespace SqlSelect.Timestamp

/-- A nonempty run of at most `limit` digits, and what follows it. -/
def readDigits (limit : Nat) (text : List Char) : Option (List Digit × List Char) :=
  let run := Digits.scanUpTo limit text
  if run.1 = [] then none else some run

/-- A number of at most `limit` digits after blanks. -/
def readNumber (limit : Nat) (text : List Char) : Option (Nat × List Char) :=
  (readDigits limit (skipBlanks text)).map fun run => (Digits.value run.1, run.2)

/-- What follows a mark after blanks. -/
def readMark (mark : Char) (text : List Char) : Option (List Char) :=
  match skipBlanks text with
  | [] => none
  | c :: rest => if c = mark then some rest else none

/-- A year after blanks: a sign and any number of digits, or up to four digits. -/
def readYear (text : List Char) : Option (Int × List Char) :=
  match skipBlanks text with
  | [] => none
  | c :: rest =>
    if c = '-' then
      (readDigits rest.length rest).map fun run => (-(Digits.value run.1 : Int), run.2)
    else if c = '+' then
      (readDigits rest.length rest).map fun run => ((Digits.value run.1 : Int), run.2)
    else (readDigits 4 (c :: rest)).map fun run => ((Digits.value run.1 : Int), run.2)

/-- The nanoseconds of a fraction, if a point follows directly, and what follows it. -/
def readFraction : List Char → Option (Nat × List Char)
  | [] => some (0, [])
  | c :: rest =>
    if c = '.' then
      (readDigits 9 rest).map fun run =>
        (Digits.value run.1 * tenPow (9 - run.1.length), (Digits.scan run.2).2)
    else some (0, c :: rest)

/-- The timestamp that a text spells. -/
def read? (text : List Char) : Option Timestamp := do
  let (year, text) ← readYear text
  let text ← readMark '-' text
  let (month, text) ← readNumber 2 text
  let text ← readMark '-' text
  let (day, text) ← readNumber 2 text
  let text ← readMark 'T' text
  let (hour, text) ← readNumber 2 text
  let text ← readMark ':' text
  let (minute, text) ← readNumber 2 text
  let text ← readMark ':' text
  let (second, text) ← readNumber 2 text
  let (nano, text) ← readFraction text
  if skipBlanks text = [] then of? year month day hour minute second nano else none

end SqlSelect.Timestamp
