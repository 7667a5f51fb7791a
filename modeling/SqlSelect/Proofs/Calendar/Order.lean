import SqlSelect.Proofs.Calendar.ReadBack
import SqlSelect.Sql.Text

/-!
# The order of written timestamps

In a database a timestamp is compared as the text that was written for it. With a year of four digits
every part has a fixed width and the greater parts come first, so the texts are ordered byte by byte as
the timestamps are in time, as far as milliseconds tell. A leap second is written as second 60, which
puts it behind the second that it extends and before the next minute. The decimals are cut off, so no
text runs ahead of its timestamp. With years of any width two texts are the same only if the timestamps
agree to the millisecond.
-/

namespace SqlSelect

/-! ## Texts byte by byte -/

/-- The bytes of a text are those of its characters. -/
theorem nameBytes_ofList (text : List Char) :
    nameBytes (String.ofList text) = text.flatMap String.utf8EncodeChar := by
  rw [nameBytes, String.toByteArray_ofList, List.utf8Encode, List.toList_data_toByteArray]

/-- The order of two texts by their bytes. -/
def byBytes (left right : List Char) : Ordering :=
  compare (nameBytes (String.ofList left)) (nameBytes (String.ofList right))

theorem byBytes_self (text : List Char) : byBytes text text = .eq := by
  rw [byBytes]
  exact Std.ReflCmp.compare_self

/-- An ASCII character is its own byte. -/
theorem nameBytes_cons {c : Char} (h : c.toNat ≤ 127) (text : List Char) :
    nameBytes (String.ofList (c :: text)) =
      UInt8.ofNat c.toNat :: nameBytes (String.ofList text) := by
  have hbyte : String.utf8EncodeChar c = [UInt8.ofNat c.toNat] := if_pos h
  rw [nameBytes_ofList, nameBytes_ofList, List.flatMap_cons, hbyte, List.singleton_append]

/-- Texts that start with one ASCII character are ordered by what follows it. -/
theorem byBytes_cons_self {c : Char} (h : c.toNat ≤ 127) (left right : List Char) :
    byBytes (c :: left) (c :: right) = byBytes left right := by
  have hsame : compare (UInt8.ofNat c.toNat) (UInt8.ofNat c.toNat) = .eq := Std.ReflCmp.compare_self
  rw [byBytes, nameBytes_cons h, nameBytes_cons h, List.compare_cons_cons, hsame, Ordering.eq_then]
  rfl

/-- The byte of a digit is in the order of the digits. -/
theorem compare_byte_digit (left right : Digit) :
    compare (UInt8.ofNat left.char.toNat) (UInt8.ofNat right.char.toNat) =
      compare left.val right.val := by
  revert left right; decide

/-- A number is compared by what stands for most first. -/
theorem compare_mul_add {unit a b c d : Nat} (hb : b < unit) (hd : d < unit) :
    compare (a * unit + b) (c * unit + d) = (compare a c).then (compare b d) := by
  rcases Nat.lt_trichotomy a c with h | rfl | h
  · have hnext : (a + 1) * unit ≤ c * unit := Nat.mul_le_mul_right _ h
    rw [Nat.add_mul, Nat.one_mul] at hnext
    rw [Nat.compare_eq_lt.2 h, Nat.compare_eq_lt.2 (by omega)]
    rfl
  · rw [Nat.compare_eq_eq.2 rfl, Ordering.eq_then]
    simp only [compare, compareOfLessAndEq, Nat.add_lt_add_iff_left, Nat.add_left_cancel_iff]
  · have hnext : (c + 1) * unit ≤ a * unit := Nat.mul_le_mul_right _ h
    rw [Nat.add_mul, Nat.one_mul] at hnext
    rw [Nat.compare_eq_gt.2 h, Nat.compare_eq_gt.2 (by omega)]
    rfl

/-- Equally many digits are ordered by their value, and then by what follows. -/
theorem byBytes_digits {left right : List Digit} (h : left.length = right.length)
    (rest other : List Char) :
    byBytes (Digits.text left ++ rest) (Digits.text right ++ other) =
      (compare (Digits.value left) (Digits.value right)).then (byBytes rest other) := by
  induction left generalizing right with
  | nil =>
    obtain rfl := List.length_eq_zero_iff.1 h.symm
    rfl
  | cons digit left ih =>
    cases right with
    | nil => cases h
    | cons digit' right =>
      have hlength : left.length = right.length := Nat.succ.inj h
      have hascii : ∀ digit : Digit, digit.char.toNat ≤ 127 := by decide
      have hleft := Digits.value_lt left
      rw [hlength] at hleft
      have hhead : byBytes (Digits.text (digit :: left) ++ rest)
          (Digits.text (digit' :: right) ++ other) = (compare digit.val digit'.val).then
            (byBytes (Digits.text left ++ rest) (Digits.text right ++ other)) := by
        rw [Digits.text, Digits.text, List.map_cons, List.map_cons, List.cons_append,
          List.cons_append, byBytes, nameBytes_cons (hascii digit), nameBytes_cons (hascii digit'),
          List.compare_cons_cons, compare_byte_digit]
        rfl
      rw [hhead, ih hlength, Digits.value_cons, Digits.value_cons, hlength,
        compare_mul_add hleft (Digits.value_lt right), Ordering.then_assoc]

/-- Numbers in a fixed width are ordered by their size, and then by what follows. -/
theorem byBytes_padded {width left right : Nat} (hwidth : 0 < width) (hleft : left < tenPow width)
    (hright : right < tenPow width) (rest other : List Char) :
    byBytes (Digits.text (Digits.padded width left) ++ rest)
        (Digits.text (Digits.padded width right) ++ other) =
      (compare left right).then (byBytes rest other) := by
  have hlength : (Digits.padded width left).length = (Digits.padded width right).length := by
    rw [Digits.length_padded hwidth hleft, Digits.length_padded hwidth hright]
  rw [byBytes_digits hlength, Digits.value_padded, Digits.value_padded]

namespace Timestamp

/-! ## Time -/

/-- The second of the day; a leap second still belongs to the second that it extends. -/
def secondOfDay (t : Timestamp) : Nat := t.hour * 3600 + t.minute * 60 + min t.second 59

/-- The nanoseconds since the second of the day began; they run on through a leap second. -/
def nanoOfSecond (t : Timestamp) : Nat := (if t.second = 60 then 1000000000 else 0) + t.nano

/-- The order in time: by year, month and day, then by the second of the day and its nanoseconds. -/
def inTime (left right : Timestamp) : Ordering :=
  (compare left.year right.year).then <| (compare left.month right.month).then <|
    (compare left.day right.day).then <| (compare left.secondOfDay right.secondOfDay).then <|
      compare left.nanoOfSecond right.nanoOfSecond

/-- The timestamp with what lies below its milliseconds cut off. -/
def toMillisecond (t : Timestamp) : Timestamp :=
  { t with
    nano := t.nano / 1000000 * 1000000
    nano_lt := Nat.lt_of_le_of_lt (Nat.div_mul_le_self _ _) t.nano_lt }

/-- Two orderings are the same if they say less and greater of the same. -/
theorem ordering_eq_of_iff {left right : Ordering} (hlt : left = .lt ↔ right = .lt)
    (hgt : left = .gt ↔ right = .gt) : left = right := by
  cases left <;> cases right <;> simp_all

/-- The clock, compared part by part, compares the second of the day and its milliseconds. -/
theorem compare_clock {h h' m m' s s' x x' : Nat} (hm : m < 60) (hm' : m' < 60) (hs : s ≤ 60)
    (hs' : s' ≤ 60) (hx : x < 1000) (hx' : x' < 1000) :
    ((compare h h').then <| (compare m m').then <| (compare s s').then <| compare x x') =
      (compare (h * 3600 + m * 60 + min s 59) (h' * 3600 + m' * 60 + min s' 59)).then
        (compare ((if s = 60 then 1000000000 else 0) + x * 1000000)
          ((if s' = 60 then 1000000000 else 0) + x' * 1000000)) := by
  apply ordering_eq_of_iff
  · simp only [Ordering.then_eq_lt, Nat.compare_eq_lt, Nat.compare_eq_eq]
    split <;> split <;> omega
  · simp only [Ordering.then_eq_gt, Nat.compare_eq_gt, Nat.compare_eq_eq]
    split <;> split <;> omega

/-- What is put behind an ordering matters only where the ordering leaves it open. -/
theorem isLE_then_mono {order left right : Ordering} (h : left.isLE → right.isLE) :
    (order.then left).isLE → (order.then right).isLE := by
  cases order with
  | eq => exact h
  | lt => exact id
  | gt => exact id

/-- Cutting decimals off puts no timestamp behind a later one. -/
theorem inTime_toMillisecond {left right : Timestamp} (h : (left.inTime right).isLE) :
    (left.toMillisecond.inTime right.toMillisecond).isLE := by
  have hcut : left.nanoOfSecond ≤ right.nanoOfSecond →
      left.toMillisecond.nanoOfSecond ≤ right.toMillisecond.nanoOfSecond := by
    have hleft := left.nano_lt
    have hright := right.nano_lt
    unfold nanoOfSecond toMillisecond
    dsimp only
    split <;> split <;> omega
  -- The day and the second of the day are not cut.
  refine isLE_then_mono (isLE_then_mono (isLE_then_mono (isLE_then_mono ?_))) h
  rw [Nat.isLE_compare, Nat.isLE_compare]
  exact hcut

/-! ## Texts in the order of time -/

/-- A year of four digits is written with no sign. -/
theorem yearText_eq {year : Int} (h : 0 ≤ year ∧ year ≤ 9999) :
    yearText year = Digits.text (Digits.padded 4 year.natAbs) := by
  rw [yearText, if_neg (by omega), if_neg (by omega), List.nil_append]

/-- The parts of a timestamp fit their widths. -/
theorem parts_lt (t : Timestamp) :
    t.month < tenPow 2 ∧ t.day < tenPow 2 ∧ t.hour < tenPow 2 ∧ t.minute < tenPow 2 ∧
      t.second < tenPow 2 ∧ t.nano / 1000000 < tenPow 3 := by
  have hmonth := t.month_range
  have hday := Nat.le_trans t.day_range.2 (daysInMonth_le t.year t.month)
  have hclock := And.intro t.hour_lt (And.intro t.minute_lt t.second_le)
  have hnano := t.nano_lt
  have hwidths : tenPow 2 = 100 ∧ tenPow 3 = 1000 := ⟨rfl, rfl⟩
  omega

/-- Texts of timestamps with years of four digits are in the order of time, to the millisecond. -/
theorem byBytes_millisecondText {left right : Timestamp}
    (hleft : 0 ≤ left.year ∧ left.year ≤ 9999) (hright : 0 ≤ right.year ∧ right.year ≤ 9999)
    (rest : List Char) :
    byBytes (left.millisecondText ++ rest) (right.millisecondText ++ rest) =
      left.toMillisecond.inTime right.toMillisecond := by
  obtain ⟨hmonth, hday, hhour, hminute, hsecond, hmilli⟩ := left.parts_lt
  obtain ⟨hmonth', hday', hhour', hminute', hsecond', hmilli'⟩ := right.parts_lt
  have hdash : '-'.toNat ≤ 127 := by decide
  have hspace : ' '.toNat ≤ 127 := by decide
  have hcolon : ':'.toNat ≤ 127 := by decide
  have hpoint : '.'.toNat ≤ 127 := by decide
  have hyear : compare left.year.natAbs right.year.natAbs = compare left.year right.year := by
    apply ordering_eq_of_iff
    · rw [Nat.compare_eq_lt, Int.compare_eq_lt]
      omega
    · rw [Nat.compare_eq_gt, Int.compare_eq_gt]
      omega
  have hfour : tenPow 4 = 10000 := rfl
  simp only [millisecondText, dayText, clockText, yearText_eq hleft, yearText_eq hright, twoDigits,
    List.append_assoc, List.cons_append]
  rw [byBytes_padded (by decide) (by omega) (by omega), byBytes_cons_self hdash,
    byBytes_padded (by decide) hmonth hmonth', byBytes_cons_self hdash,
    byBytes_padded (by decide) hday hday', byBytes_cons_self hspace,
    byBytes_padded (by decide) hhour hhour', byBytes_cons_self hcolon,
    byBytes_padded (by decide) hminute hminute', byBytes_cons_self hcolon,
    byBytes_padded (by decide) hsecond hsecond', byBytes_cons_self hpoint,
    byBytes_padded (by decide) hmilli hmilli', byBytes_self, Ordering.then_eq, hyear,
    compare_clock left.minute_lt right.minute_lt left.second_le right.second_le hmilli hmilli']
  rfl

/-! ## Texts of any width -/

/-- Timestamps agree to the millisecond if their parts do. -/
theorem toMillisecond_eq_iff {left right : Timestamp} :
    left.toMillisecond = right.toMillisecond ↔
      left.year = right.year ∧ left.month = right.month ∧ left.day = right.day ∧
        left.hour = right.hour ∧ left.minute = right.minute ∧ left.second = right.second ∧
          left.nano / 1000000 = right.nano / 1000000 := by
  have hmilli : left.nano / 1000000 * 1000000 = right.nano / 1000000 * 1000000 ↔
      left.nano / 1000000 = right.nano / 1000000 := by omega
  rw [toMillisecond, toMillisecond, mk.injEq, hmilli]

/-- The first number of two digits and what follows it can be told from a text. -/
theorem twoDigits_append_inj {a b : Nat} (ha : a < tenPow 2) (hb : b < tenPow 2)
    {rest other : List Char} (h : twoDigits a ++ rest = twoDigits b ++ other) :
    a = b ∧ rest = other := by
  have hread := congrArg (readNumber 2) h
  rw [readNumber_twoDigits ha, readNumber_twoDigits hb] at hread
  exact Prod.mk.inj (Option.some.inj hread)

/-- The year and what follows its dash can be told from a text. -/
theorem yearText_append_inj {year year' : Int} {rest other : List Char}
    (h : yearText year ++ '-' :: rest = yearText year' ++ '-' :: other) :
    year = year' ∧ rest = other := by
  have hdash : ∀ rest : List Char, ∀ c ∈ ('-' :: rest).head?, Digit.ofChar? c = none := by
    intro rest c hc
    obtain rfl : '-' = c := Option.some.inj hc
    decide
  have hread := congrArg readYear h
  rw [readYear_yearText year (hdash rest), readYear_yearText year' (hdash other)] at hread
  obtain ⟨hyear, hrest⟩ := Prod.mk.inj (Option.some.inj hread)
  exact ⟨hyear, (List.cons.inj hrest).2⟩

/-- A text tells everything but what lies below the milliseconds. -/
theorem millisecondText_inj {left right : Timestamp} :
    left.millisecondText = right.millisecondText ↔ left.toMillisecond = right.toMillisecond := by
  obtain ⟨hmonth, hday, hhour, hminute, hsecond, hmilli⟩ := left.parts_lt
  obtain ⟨hmonth', hday', hhour', hminute', hsecond', hmilli'⟩ := right.parts_lt
  rw [toMillisecond_eq_iff]
  constructor
  · intro h
    simp only [millisecondText, dayText, clockText, List.append_assoc, List.cons_append] at h
    obtain ⟨hyear, h⟩ := yearText_append_inj h
    obtain ⟨hmonths, h⟩ := twoDigits_append_inj hmonth hmonth' h
    obtain ⟨hdays, h⟩ := twoDigits_append_inj hday hday' (List.cons.inj h).2
    obtain ⟨hhours, h⟩ := twoDigits_append_inj hhour hhour' (List.cons.inj h).2
    obtain ⟨hminutes, h⟩ := twoDigits_append_inj hminute hminute' (List.cons.inj h).2
    obtain ⟨hseconds, h⟩ := twoDigits_append_inj hsecond hsecond' (List.cons.inj h).2
    have hread := congrArg readFraction h
    rw [readFraction_padded (by decide) (by decide) hmilli,
      readFraction_padded (by decide) (by decide) hmilli'] at hread
    have hmillis := (Prod.mk.inj (Option.some.inj hread)).1
    exact ⟨hyear, hmonths, hdays, hhours, hminutes, hseconds,
      Nat.eq_of_mul_eq_mul_right (tenPow_pos 6) hmillis⟩
  · rintro ⟨hyear, hmonths, hdays, hhours, hminutes, hseconds, hmillis⟩
    simp only [millisecondText, dayText, clockText, hyear, hmonths, hdays, hhours, hminutes, hseconds,
      hmillis]

/-- Nothing in the text of a timestamp is a quote. -/
theorem quote_not_mem_millisecondText (t : Timestamp) : '\'' ∉ t.millisecondText := by
  have hdigits : ∀ digits : List Digit, '\'' ∉ Digits.text digits := by
    intro digits hquote
    obtain ⟨digit, -, hchar⟩ := List.mem_map.1 hquote
    revert hchar
    revert digit
    decide
  have hyear : '\'' ∉ yearText t.year := by
    unfold yearText
    split
    · simp [hdigits]
    · split <;> simp [hdigits]
  simp [millisecondText, dayText, clockText, twoDigits, hdigits, hyear]

end Timestamp

/-- A timestamp is written as its millisecond text between two quotes. -/
theorem sql_date (t : Timestamp) :
    sql (Literal.date t) = String.ofList ('\'' :: t.millisecondText ++ ['\'']) := by
  have hrender : (Literal.date t).render = '\'' :: t.millisecondText ++ ['\''] := by
    rw [Literal.render, Quoted.wrap, Quoted.double_eq_self t.quote_not_mem_millisecondText]
  exact congrArg String.ofList hrender

/-- Of two timestamps with years of four digits, the literal of the one that is no later in time is not
greater byte by byte than that of the other; the literals, and likewise the texts that they hold, compare
as the timestamps do when they are cut to the millisecond. Two literals with years of any width are
the same exactly if the timestamps agree to the millisecond, so a leap second is never written as a
second of the next minute. -/
theorem dates_sort_as_written :
    (∀ left right : Timestamp,
      sql (Literal.date left) = sql (Literal.date right) ↔
        left.toMillisecond = right.toMillisecond) ∧
    (∀ left right : Timestamp, left.second = 60 → right.second ≠ 60 →
      sql (Literal.date left) ≠ sql (Literal.date right)) ∧
    ∀ left right : Timestamp, 0 ≤ left.year ∧ left.year ≤ 9999 → 0 ≤ right.year ∧ right.year ≤ 9999 →
      ((left.inTime right).isLE →
        (compare (nameBytes (sql (Literal.date left)))
          (nameBytes (sql (Literal.date right)))).isLE) ∧
      compare (nameBytes (sql (Literal.date left))) (nameBytes (sql (Literal.date right))) =
        left.toMillisecond.inTime right.toMillisecond ∧
      compare (nameBytes (String.ofList left.millisecondText))
          (nameBytes (String.ofList right.millisecondText)) =
        left.toMillisecond.inTime right.toMillisecond := by
  have hsame : ∀ left right : Timestamp,
      sql (Literal.date left) = sql (Literal.date right) ↔
        left.toMillisecond = right.toMillisecond := by
    intro left right
    rw [sql_date, sql_date, String.ofList_inj, List.cons_append, List.cons_append,
      List.cons_inj_right, List.append_left_inj, Timestamp.millisecondText_inj]
  refine ⟨hsame, fun left right hleap hplain h => ?_, fun left right hleft hright => ?_⟩
  · obtain ⟨-, -, -, -, -, hsecond, -⟩ := Timestamp.toMillisecond_eq_iff.1 ((hsame left right).1 h)
    exact hplain (hsecond.symm.trans hleap)
  · have hquote : '\''.toNat ≤ 127 := by decide
    have hliterals : compare (nameBytes (sql (Literal.date left)))
        (nameBytes (sql (Literal.date right))) = left.toMillisecond.inTime right.toMillisecond := by
      rw [sql_date, sql_date]
      exact (byBytes_cons_self hquote _ _).trans
        (Timestamp.byBytes_millisecondText hleft hright ['\''])
    have htexts := Timestamp.byBytes_millisecondText hleft hright []
    rw [List.append_nil, List.append_nil] at htexts
    refine ⟨fun h => ?_, hliterals, htexts⟩
    rw [hliterals]
    exact Timestamp.inTime_toMillisecond h

/-- The last nanosecond of a leap second, written as second 60, comes before the new year. -/
theorem leap_second_before_new_year :
    let leap : Timestamp := ⟨1999, 12, 31, 23, 59, 60, 999999999, by decide, by decide, by decide,
      by decide, by decide, by decide⟩
    let next : Timestamp := ⟨2000, 1, 1, 0, 0, 0, 0, by decide, by decide, by decide, by decide,
      by decide, by decide⟩
    (leap.inTime next).isLE ∧
      sql (Literal.date leap) = "'1999-12-31 23:59:60.999'" ∧
      sql (Literal.date leap) ≠ sql (Literal.date next) ∧
      (compare (nameBytes (sql (Literal.date leap))) (nameBytes (sql (Literal.date next)))).isLE := by
  intro leap next
  have hinTime : (leap.inTime next).isLE := by decide
  obtain ⟨-, hleap, horder⟩ := dates_sort_as_written
  exact ⟨hinTime, by decide +kernel, hleap leap next rfl (by decide),
    (horder leap next (by decide) (by decide)).1 hinTime⟩

end SqlSelect
