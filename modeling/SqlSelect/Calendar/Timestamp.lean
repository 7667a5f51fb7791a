/-!
# Timestamps

A timestamp is a day of the proleptic Gregorian calendar and a time of day to the nanosecond,
without a time zone. Every minute may have a leap second, which is its second number 60; a leap second
in the middle of a minute, which a clock that lets every second run over can show, is not covered. The
ranges of all parts are in the type, so no timestamp is out of the calendar.
-/

namespace SqlSelect

/-- Years divisible by four, those of whole centuries only if divisible by four hundred. -/
def isLeapYear (year : Int) : Bool := year % 4 = 0 && (year % 100 ≠ 0 || year % 400 = 0)

/-- The number of days of a month; there are none outside the months 1 to 12. -/
def daysInMonth (year : Int) (month : Nat) : Nat :=
  if month = 2 then if isLeapYear year then 29 else 28
  else if month ∈ [4, 6, 9, 11] then 30
  else if month ∈ [1, 3, 5, 7, 8, 10, 12] then 31
  else 0

/-- A day and a time of day. Only the last second of a minute can be followed by a leap second. -/
structure Timestamp where
  year : Int
  month : Nat
  day : Nat
  hour : Nat
  minute : Nat
  /-- The second of the minute, 60 for a leap second. -/
  second : Nat
  nano : Nat
  year_range : -262143 ≤ year ∧ year ≤ 262142
  day_range : 1 ≤ day ∧ day ≤ daysInMonth year month
  hour_lt : hour < 24
  minute_lt : minute < 60
  second_le : second ≤ 60
  nano_lt : nano < 1000000000
deriving DecidableEq

namespace Timestamp

/-- The timestamp with the given parts, if they are in range. -/
def of? (year : Int) (month day hour minute second nano : Nat) : Option Timestamp :=
  if h : ((-262143 ≤ year ∧ year ≤ 262142) ∧ (1 ≤ day ∧ day ≤ daysInMonth year month)) ∧
      (hour < 24 ∧ minute < 60 ∧ second ≤ 60 ∧ nano < 1000000000) then
    some ⟨year, month, day, hour, minute, second, nano, h.1.1, h.1.2, h.2.1, h.2.2.1, h.2.2.2.1,
      h.2.2.2.2⟩
  else none

/-- The parts of a timestamp are in range. -/
@[simp] theorem of?_self (t : Timestamp) :
    of? t.year t.month t.day t.hour t.minute t.second t.nano = some t := by
  have ranges : ((-262143 ≤ t.year ∧ t.year ≤ 262142) ∧
      (1 ≤ t.day ∧ t.day ≤ daysInMonth t.year t.month)) ∧
      (t.hour < 24 ∧ t.minute < 60 ∧ t.second ≤ 60 ∧ t.nano < 1000000000) :=
    ⟨⟨t.year_range, t.day_range⟩, t.hour_lt, t.minute_lt, t.second_le, t.nano_lt⟩
  rw [of?, dif_pos ranges]

/-- A month without days is not a month. -/
theorem month_range (t : Timestamp) : 1 ≤ t.month ∧ t.month ≤ 12 := by
  have days : 1 ≤ daysInMonth t.year t.month := Nat.le_trans t.day_range.1 t.day_range.2
  unfold daysInMonth at days
  split at days
  · omega
  · split at days
    · next h => simp only [List.mem_cons, List.not_mem_nil, or_false] at h; omega
    · split at days
      · next h => simp only [List.mem_cons, List.not_mem_nil, or_false] at h; omega
      · omega

end Timestamp

end SqlSelect
