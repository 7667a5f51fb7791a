import SqlSelect.Proofs.Calendar.ReadBack

/-!
# The texts of a timestamp

Which texts spell a timestamp is said here without a reader: they are the texts of its parts, one after
the other. The reader accepts just these. It takes the longest run of digits at each number, so a piece
is read back whole because no digit comes next: a mark follows it, or blanks, or the end.
-/

namespace SqlSelect

/-! ## The syntax -/

namespace Timestamp

/-- Blank characters only. -/
def BlankText (text : List Char) : Prop := ∀ c ∈ text, isBlank c = true

/-- A mark after blanks. -/
def MarkText (mark : Char) (text : List Char) : Prop :=
  ∃ blanks, BlankText blanks ∧ text = blanks ++ [mark]

/-- A number of one or two digits after blanks. -/
def NumberText (number : Nat) (text : List Char) : Prop :=
  ∃ blanks digits, BlankText blanks ∧ text = blanks ++ Digits.text digits ∧ digits ≠ [] ∧
    digits.length ≤ 2 ∧ number = Digits.value digits

/-- A year after blanks: one to four digits, or a sign and any number of digits. -/
def YearText (year : Int) (text : List Char) : Prop :=
  ∃ blanks digits, BlankText blanks ∧ digits ≠ [] ∧
    ((text = blanks ++ Digits.text digits ∧ digits.length ≤ 4 ∧ year = Digits.value digits) ∨
      (text = blanks ++ '+' :: Digits.text digits ∧ year = Digits.value digits) ∨
      (text = blanks ++ '-' :: Digits.text digits ∧ year = -(Digits.value digits : Int)))

/-- Nothing, or a point and digits, of which the first nine are the nanoseconds. -/
def FractionText (nano : Nat) (text : List Char) : Prop :=
  (text = [] ∧ nano = 0) ∨ ∃ digits, digits ≠ [] ∧ text = '.' :: Digits.text digits ∧
    nano = Digits.value (digits.take 9) * tenPow (9 - (digits.take 9).length)

/-- Texts of the given sorts, one after the other. -/
def Sequence : List (List Char → Prop) → List Char → Prop
  | [], text => text = []
  | sort :: sorts, text => ∃ piece rest, text = piece ++ rest ∧ sort piece ∧ Sequence sorts rest

/-- The texts that spell a timestamp. -/
def SpelledBy (t : Timestamp) : List Char → Prop :=
  Sequence [YearText t.year, MarkText '-', NumberText t.month, MarkText '-', NumberText t.day,
    MarkText 'T', NumberText t.hour, MarkText ':', NumberText t.minute, MarkText ':',
    NumberText t.second, FractionText t.nano, BlankText]

end Timestamp

/-! ## Runs of digits -/

namespace Digits

/-- A scan with a limit loses nothing, keeps to the limit, and stops short of it only where no digit
follows. -/
theorem scanUpTo_spec (limit : Nat) (cs : List Char) :
    text (scanUpTo limit cs).1 ++ (scanUpTo limit cs).2 = cs ∧
      (scanUpTo limit cs).1.length ≤ limit ∧
      ((scanUpTo limit cs).1.length < limit →
        ∀ c ∈ (scanUpTo limit cs).2.head?, Digit.ofChar? c = none) := by
  induction limit generalizing cs with
  | zero => exact ⟨rfl, Nat.le_refl 0, fun h => absurd h (Nat.lt_irrefl 0)⟩
  | succ limit ih =>
    cases cs with
    | nil => exact ⟨rfl, Nat.zero_le _, fun _ c hc => by cases hc⟩
    | cons c rest =>
      rw [scanUpTo]
      split
      · next digit hdigit =>
        obtain ⟨happend, hlength, hends⟩ := ih rest
        refine ⟨?_, Nat.succ_le_succ hlength, fun h => hends (Nat.lt_of_succ_lt_succ h)⟩
        rw [text] at happend ⊢
        rw [List.map_cons, List.cons_append, happend, ← Digit.ofChar?_eq_some_iff.1 hdigit]
      · next hnone =>
        refine ⟨rfl, Nat.zero_le _, fun _ d hd => ?_⟩
        obtain rfl := Option.some.inj hd
        exact hnone

end Digits

namespace Timestamp

/-- No digit comes next. -/
def NoDigit (text : List Char) : Prop := ∀ c ∈ text.head?, Digit.ofChar? c = none

/-- The digits that are read stand at the start of the text. -/
theorem readDigits_eq_some {limit : Nat} {text rest : List Char} {digits : List Digit}
    (h : readDigits limit text = some (digits, rest)) :
    text = Digits.text digits ++ rest ∧ digits ≠ [] ∧ digits.length ≤ limit ∧
      (digits.length < limit → NoDigit rest) := by
  unfold readDigits at h
  dsimp only at h
  split at h
  · cases h
  · next hne =>
    obtain ⟨happend, hlength, hends⟩ := Digits.scanUpTo_spec limit text
    rw [Option.some.inj h] at happend hlength hends hne
    exact ⟨happend.symm, hne, hlength, hends⟩

/-! ## Blanks and marks -/

theorem exists_blanks (text : List Char) :
    ∃ blanks, BlankText blanks ∧ text = blanks ++ skipBlanks text :=
  ⟨text.takeWhile isBlank, fun c hc => List.all_eq_true.1 List.all_takeWhile c hc,
    List.takeWhile_append_dropWhile.symm⟩

theorem skipBlanks_append {blanks : List Char} (h : BlankText blanks) (rest : List Char) :
    skipBlanks (blanks ++ rest) = skipBlanks rest := by
  induction blanks with
  | nil => rfl
  | cons c others ih =>
    obtain ⟨hc, hothers⟩ := List.forall_mem_cons.1 h
    rw [List.cons_append, skipBlanks, List.dropWhile_cons_of_pos hc]
    exact ih hothers

theorem skipBlanks_eq_nil_iff {text : List Char} : skipBlanks text = [] ↔ BlankText text := by
  constructor
  · intro h
    obtain ⟨blanks, hblanks, htext⟩ := exists_blanks text
    rw [htext, h, List.append_nil]
    exact hblanks
  · intro h
    have hskip := skipBlanks_append h []
    rwa [List.append_nil] at hskip

/-- What is blank is no digit. -/
theorem noDigit_of_blank {blanks rest : List Char} (h : BlankText blanks) (hrest : NoDigit rest) :
    NoDigit (blanks ++ rest) := by
  cases blanks with
  | nil => exact hrest
  | cons c others =>
    intro d hd
    obtain rfl := Option.some.inj hd
    cases hdigit : Digit.ofChar? c with
    | none => rfl
    | some digit =>
      have hblank := h c List.mem_cons_self
      rw [Digit.ofChar?_eq_some_iff.1 hdigit, (Digit.char_plain digit).1] at hblank
      cases hblank

theorem markText_of_readMark {mark : Char} {text rest : List Char}
    (h : readMark mark text = some rest) :
    ∃ piece, text = piece ++ rest ∧ MarkText mark piece := by
  obtain ⟨blanks, hblanks, htext⟩ := exists_blanks text
  unfold readMark at h
  split at h
  · cases h
  · next c after hskip =>
    split at h
    · next hmark =>
      obtain rfl := Option.some.inj h
      refine ⟨blanks ++ [mark], ?_, blanks, hblanks, rfl⟩
      rw [htext, hskip, hmark, List.append_assoc, List.singleton_append]
    · cases h

theorem readMark_of_markText {mark : Char} (hmark : isBlank mark = false) {piece : List Char}
    (h : MarkText mark piece) (rest : List Char) : readMark mark (piece ++ rest) = some rest := by
  obtain ⟨blanks, hblanks, rfl⟩ := h
  rw [List.append_assoc, readMark, skipBlanks_append hblanks, List.singleton_append,
    skipBlanks_cons hmark]
  exact if_pos rfl

theorem noDigit_of_markText {mark : Char} (hmark : Digit.ofChar? mark = none) {piece : List Char}
    (h : MarkText mark piece) (rest : List Char) : NoDigit (piece ++ rest) := by
  obtain ⟨blanks, hblanks, rfl⟩ := h
  rw [List.append_assoc]
  refine noDigit_of_blank hblanks fun c hc => ?_
  obtain rfl : mark = c := Option.some.inj hc
  exact hmark

/-! ## Numbers -/

/-- A number that is made of digits is made of those at the start of the text. -/
theorem readDigits_map_eq_some {α : Type} (make : Nat → α) {limit : Nat} {text rest : List Char}
    {a : α} (h : (readDigits limit text).map (fun run => (make (Digits.value run.1), run.2)) =
      some (a, rest)) :
    ∃ digits, text = Digits.text digits ++ rest ∧ digits ≠ [] ∧ digits.length ≤ limit ∧
      a = make (Digits.value digits) := by
  obtain ⟨⟨digits, after⟩, hdigits, hfound⟩ := Option.map_eq_some_iff.1 h
  obtain ⟨rfl, rfl⟩ := Prod.mk.inj hfound
  obtain ⟨htext, hne, hlength, -⟩ := readDigits_eq_some hdigits
  exact ⟨digits, htext, hne, hlength, rfl⟩

theorem numberText_of_readNumber {text rest : List Char} {number : Nat}
    (h : readNumber 2 text = some (number, rest)) :
    ∃ piece, text = piece ++ rest ∧ NumberText number piece := by
  obtain ⟨blanks, hblanks, htext⟩ := exists_blanks text
  obtain ⟨digits, hskip, hne, hlength, rfl⟩ := readDigits_map_eq_some id h
  rw [hskip, ← List.append_assoc] at htext
  exact ⟨_, htext, blanks, digits, hblanks, rfl, hne, hlength, rfl⟩

theorem readNumber_of_numberText {number : Nat} {piece rest : List Char} (h : NumberText number piece)
    (hrest : NoDigit rest) : readNumber 2 (piece ++ rest) = some (number, rest) := by
  obtain ⟨blanks, digits, hblanks, rfl, hne, hlength, rfl⟩ := h
  rw [readNumber, List.append_assoc, skipBlanks_append hblanks, skipBlanks_digits hne,
    readDigits_text hne hlength (.inr hrest)]
  rfl

theorem yearText_of_readYear {text rest : List Char} {year : Int}
    (h : readYear text = some (year, rest)) :
    ∃ piece, text = piece ++ rest ∧ YearText year piece := by
  obtain ⟨blanks, hblanks, htext⟩ := exists_blanks text
  unfold readYear at h
  split at h
  · cases h
  · next c after hskip =>
    rw [hskip] at htext
    split at h
    · next hminus =>
      obtain ⟨digits, rfl, hne, -, rfl⟩ := readDigits_map_eq_some (fun n => -(n : Int)) h
      rw [hminus, ← List.cons_append, ← List.append_assoc] at htext
      exact ⟨_, htext, blanks, digits, hblanks, hne, .inr (.inr ⟨rfl, rfl⟩)⟩
    split at h
    · next hplus =>
      obtain ⟨digits, rfl, hne, -, rfl⟩ := readDigits_map_eq_some (fun n => (n : Int)) h
      rw [hplus, ← List.cons_append, ← List.append_assoc] at htext
      exact ⟨_, htext, blanks, digits, hblanks, hne, .inr (.inl ⟨rfl, rfl⟩)⟩
    · obtain ⟨digits, hafter, hne, hlength, rfl⟩ :=
        readDigits_map_eq_some (fun n => (n : Int)) h
      rw [hafter, ← List.append_assoc] at htext
      exact ⟨_, htext, blanks, digits, hblanks, hne, .inl ⟨rfl, hlength, rfl⟩⟩

theorem readYear_of_yearText {year : Int} {piece rest : List Char} (h : YearText year piece)
    (hrest : NoDigit rest) : readYear (piece ++ rest) = some (year, rest) := by
  obtain ⟨blanks, digits, hblanks, hne, hforms⟩ := h
  have hsigned : readDigits (Digits.text digits ++ rest).length (Digits.text digits ++ rest) =
      some (digits, rest) := by
    refine readDigits_text hne ?_ (.inr hrest)
    simp [Digits.text]
  obtain ⟨rfl, hlength, rfl⟩ | ⟨rfl, rfl⟩ | ⟨rfl, rfl⟩ := hforms
  · have hread := readDigits_text hne hlength (.inr hrest)
    rw [List.append_assoc, readYear, skipBlanks_append hblanks, skipBlanks_digits hne]
    cases digits with
    | nil => exact absurd rfl hne
    | cons first others =>
      obtain ⟨-, hminus, hplus⟩ := Digit.char_plain first
      rw [Digits.text, List.map_cons, List.cons_append] at hread ⊢
      simp only [hminus, hplus, if_false, hread, Option.map_some]
  · rw [List.append_assoc, readYear, skipBlanks_append hblanks, List.cons_append,
      skipBlanks_cons (by decide)]
    simp only [Char.reduceEq, if_false, if_true, hsigned, Option.map_some]
  · rw [List.append_assoc, readYear, skipBlanks_append hblanks, List.cons_append,
      skipBlanks_cons (by decide)]
    simp only [if_true, hsigned, Option.map_some]

/-! ## Fractions -/

theorem fractionText_of_readFraction {text rest : List Char} {nano : Nat}
    (h : readFraction text = some (nano, rest)) :
    ∃ piece, text = piece ++ rest ∧ FractionText nano piece := by
  unfold readFraction at h
  split at h
  · obtain ⟨rfl, rfl⟩ := Prod.mk.inj (Option.some.inj h)
    exact ⟨[], rfl, .inl ⟨rfl, rfl⟩⟩
  · next c after =>
    split at h
    · next hpoint =>
      obtain ⟨⟨digits, others⟩, hdigits, hfound⟩ := Option.map_eq_some_iff.1 h
      obtain ⟨rfl, rfl⟩ := Prod.mk.inj hfound
      obtain ⟨hafter, hne, hlength, hends⟩ := readDigits_eq_some hdigits
      -- A tenth digit follows nine digits only, so the first nine of all digits are the ones read.
      have hnine : (digits ++ (Digits.scan others).1).take 9 = digits := by
        by_cases hshort : digits.length < 9
        · have hnone : (Digits.scan others).1 = [] := by
            cases others with
            | nil => rfl
            | cons d tail => rw [Digits.scan, hends hshort d rfl]
          rw [hnone, List.append_nil, List.take_of_length_le hlength]
        · rw [List.take_append_of_le_length (by omega), List.take_of_length_le hlength]
      refine ⟨'.' :: Digits.text (digits ++ (Digits.scan others).1), ?_,
        .inr ⟨_, List.append_ne_nil_of_left_ne_nil hne _, rfl, by rw [hnine]⟩⟩
      have hothers := Digits.scan_append others
      rw [Digits.text] at hothers hafter ⊢
      rw [hpoint, hafter, List.map_append, List.cons_append, List.append_assoc, hothers]
    · obtain ⟨rfl, rfl⟩ := Prod.mk.inj (Option.some.inj h)
      exact ⟨[], rfl, .inl ⟨rfl, rfl⟩⟩

theorem noDigit_of_fractionText {nano : Nat} {piece rest : List Char} (h : FractionText nano piece)
    (hrest : NoDigit rest) : NoDigit (piece ++ rest) := by
  obtain ⟨rfl, -⟩ | ⟨digits, -, rfl, -⟩ := h
  · exact hrest
  · intro c hc
    obtain rfl : '.' = c := Option.some.inj hc
    decide

theorem readFraction_of_fractionText {nano : Nat} {piece rest : List Char}
    (h : FractionText nano piece) (hrest : NoDigit rest) (hpoint : '.' ∉ rest.head?) :
    readFraction (piece ++ rest) = some (nano, rest) := by
  obtain ⟨rfl, rfl⟩ | ⟨digits, hne, rfl, rfl⟩ := h
  · cases rest with
    | nil => rfl
    | cons c others =>
      have hc : c ≠ '.' := fun hc => hpoint (hc ▸ rfl)
      rw [List.nil_append, readFraction, if_neg hc]
  · have hsplit : Digits.text digits ++ rest =
        Digits.text (digits.take 9) ++ (Digits.text (digits.drop 9) ++ rest) := by
      rw [Digits.text, Digits.text, Digits.text, ← List.append_assoc, ← List.map_append,
        List.take_append_drop]
    have htake : digits.take 9 ≠ [] := by
      cases digits with
      | nil => exact absurd rfl hne
      | cons first others => exact List.cons_ne_nil _ _
    have hread : readDigits 9 (Digits.text digits ++ rest) =
        some (digits.take 9, Digits.text (digits.drop 9) ++ rest) := by
      rw [hsplit]
      refine readDigits_text htake (List.length_take_le 9 digits) ?_
      by_cases hlong : 9 ≤ digits.length
      · exact .inl (by rw [List.length_take]; omega)
      · rw [List.drop_eq_nil_of_le (by omega)]
        exact .inr hrest
    have hscan : Digits.scan (Digits.text (digits.drop 9) ++ rest) = (digits.drop 9, rest) :=
      Digits.scan_text_append _ fun c tail hcons => hrest c (by rw [hcons]; rfl)
    rw [List.cons_append, readFraction, if_pos rfl, hread, Option.map_some, hscan]

/-! ## The whole text -/

theorem of?_eq_some_iff {t : Timestamp} {year : Int} {month day hour minute second nano : Nat} :
    of? year month day hour minute second nano = some t ↔
      year = t.year ∧ month = t.month ∧ day = t.day ∧ hour = t.hour ∧ minute = t.minute ∧
        second = t.second ∧ nano = t.nano := by
  constructor
  · intro h
    unfold of? at h
    split at h
    · obtain rfl := Option.some.inj h
      exact ⟨rfl, rfl, rfl, rfl, rfl, rfl, rfl⟩
    · cases h
  · rintro ⟨rfl, rfl, rfl, rfl, rfl, rfl, rfl⟩
    exact of?_self t

theorem Sequence.cons {sort : List Char → Prop} {sorts : List (List Char → Prop)}
    {text rest : List Char} (h : ∃ piece, text = piece ++ rest ∧ sort piece)
    (hrest : Sequence sorts rest) : Sequence (sort :: sorts) text := by
  obtain ⟨piece, htext, hpiece⟩ := h
  exact ⟨piece, rest, htext, hpiece, hrest⟩

/-- What is read as a timestamp spells it. -/
theorem spelledBy_of_read? {text : List Char} {t : Timestamp} (h : read? text = some t) :
    t.SpelledBy text := by
  unfold read? at h
  simp only [Option.bind_eq_bind, Option.bind_eq_some_iff, Prod.exists] at h
  obtain ⟨year, _, hyear, _, hdash, month, _, hmonth, _, hdash', day, _, hday, _, hmark, hour, _,
    hhour, _, hcolon, minute, _, hminute, _, hcolon', second, _, hsecond, nano, after, hnano,
    hend⟩ := h
  split at hend
  · next hblank =>
    obtain ⟨rfl, rfl, rfl, rfl, rfl, rfl, rfl⟩ := of?_eq_some_iff.1 hend
    exact .cons (yearText_of_readYear hyear) <| .cons (markText_of_readMark hdash) <|
      .cons (numberText_of_readNumber hmonth) <| .cons (markText_of_readMark hdash') <|
      .cons (numberText_of_readNumber hday) <| .cons (markText_of_readMark hmark) <|
      .cons (numberText_of_readNumber hhour) <| .cons (markText_of_readMark hcolon) <|
      .cons (numberText_of_readNumber hminute) <| .cons (markText_of_readMark hcolon') <|
      .cons (numberText_of_readNumber hsecond) <| .cons (fractionText_of_readFraction hnano) <|
      .cons ⟨after, (List.append_nil after).symm, skipBlanks_eq_nil_iff.1 hblank⟩ rfl
  · cases hend

/-- What spells a timestamp is read as it: after every number comes something that is no digit, so no
number is read too far. -/
theorem read?_of_spelledBy {text : List Char} {t : Timestamp} (h : t.SpelledBy text) :
    read? text = some t := by
  obtain ⟨_, _, rfl, hyear, _, _, rfl, hdash, _, _, rfl, hmonth, _, _, rfl, hdash', _, _, rfl, hday,
    _, _, rfl, hmark, _, _, rfl, hhour, _, _, rfl, hcolon, _, _, rfl, hminute, _, _, rfl, hcolon',
    _, _, rfl, hsecond, _, _, rfl, hfraction, blanks, _, rfl, hblanks, rfl⟩ := h
  have hblank : isBlank '-' = false ∧ isBlank 'T' = false ∧ isBlank ':' = false := by decide
  have hend : NoDigit (blanks ++ []) := noDigit_of_blank hblanks fun c hc => by cases hc
  have hpoint : '.' ∉ (blanks ++ []).head? := by
    rw [List.append_nil]
    intro hhead
    cases blanks with
    | nil => cases hhead
    | cons c others =>
      obtain rfl := Option.some.inj hhead
      exact absurd (hblanks '.' List.mem_cons_self) (by decide)
  simp only [read?, Option.bind_eq_bind, Option.bind_some,
    readYear_of_yearText hyear (noDigit_of_markText (by decide) hdash _),
    readMark_of_markText hblank.1 hdash,
    readNumber_of_numberText hmonth (noDigit_of_markText (by decide) hdash' _),
    readMark_of_markText hblank.1 hdash',
    readNumber_of_numberText hday (noDigit_of_markText (by decide) hmark _),
    readMark_of_markText hblank.2.1 hmark,
    readNumber_of_numberText hhour (noDigit_of_markText (by decide) hcolon _),
    readMark_of_markText hblank.2.2 hcolon,
    readNumber_of_numberText hminute (noDigit_of_markText (by decide) hcolon' _),
    readMark_of_markText hblank.2.2 hcolon',
    readNumber_of_numberText hsecond (noDigit_of_fractionText hfraction hend),
    readFraction_of_fractionText hfraction hend hpoint]
  rw [List.append_nil, if_pos (skipBlanks_eq_nil_iff.2 hblanks), of?_self]

/-- Just the texts that spell a timestamp are read as it. -/
theorem read?_eq_some_iff {text : List Char} {t : Timestamp} :
    read? text = some t ↔ t.SpelledBy text :=
  ⟨spelledBy_of_read?, read?_of_spelledBy⟩

end Timestamp

end SqlSelect
