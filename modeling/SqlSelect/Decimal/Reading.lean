import SqlSelect.Decimal.Numeral

/-!
# Reading the parts of a numeral

The digits, the fraction and the exponent of a written number are read from the front of a text,
and what follows them is left over. Where a part may be missing the whole text is left over.
-/

namespace SqlSelect.Numeral

/-- A nonempty run of digits, and what follows it. -/
def readDigits (text : List Char) : Option (List Digit × List Char) :=
  let run := Digits.scan text
  if run.1 = [] then none else some run

/-- The digits after a point, none if there is no point. -/
def readFraction : List Char → Option (List Digit × List Char)
  | '.' :: rest => readDigits rest
  | text => some ([], text)

/-- The number after an exponent mark, with a sign or without. -/
def readExponentValue : List Char → Option (Int × List Char)
  | '-' :: rest => (readDigits rest).map fun run => (-(Digits.value run.1 : Int), run.2)
  | '+' :: rest => (readDigits rest).map fun run => ((Digits.value run.1 : Int), run.2)
  | text => (readDigits text).map fun run => ((Digits.value run.1 : Int), run.2)

/-- The exponent, if there is one. -/
def readExponent : List Char → Option (Option Int × List Char)
  | c :: rest =>
    if c = 'e' ∨ c = 'E' then (readExponentValue rest).map fun found => (some found.1, found.2)
    else some (none, c :: rest)
  | [] => some (none, [])

/-! ## What a reader leaves over -/

/-- Reading digits takes at least one. -/
theorem length_readDigits {text : List Char} {run : List Digit × List Char}
    (h : readDigits text = some run) : run.2.length < text.length := by
  unfold readDigits at h
  dsimp only at h
  split at h
  · simp at h
  · next hne =>
    obtain rfl := Option.some.inj h
    have whole := congrArg List.length (Digits.scan_append text)
    have some := List.length_pos_iff.2 hne
    simp only [List.length_append, Digits.text, List.length_map] at whole
    omega

theorem length_readFraction {text : List Char} {run : List Digit × List Char}
    (h : readFraction text = some run) : run.2.length ≤ text.length := by
  unfold readFraction at h
  split at h
  · exact Nat.le_succ_of_le (Nat.le_of_lt (length_readDigits h))
  · simp [← Option.some.inj h]

theorem length_readExponentValue {text : List Char} {found : Int × List Char}
    (h : readExponentValue text = some found) : found.2.length ≤ text.length := by
  unfold readExponentValue at h
  split at h
  all_goals
    obtain ⟨run, hrun, rfl⟩ := Option.map_eq_some_iff.1 h
    have := length_readDigits hrun
    simp only [List.length_cons]
    omega

theorem length_readExponent {text : List Char} {found : Option Int × List Char}
    (h : readExponent text = some found) : found.2.length ≤ text.length := by
  unfold readExponent at h
  split at h
  · split at h
    · obtain ⟨value, hvalue, rfl⟩ := Option.map_eq_some_iff.1 h
      exact Nat.le_succ_of_le (length_readExponentValue hvalue)
    · simp [← Option.some.inj h]
  · simp [← Option.some.inj h]

/-! ## Reading what is written -/

/-- What follows does not carry a numeral on. -/
def Ends (rest : List Char) : Prop :=
  ∀ c ∈ rest.head?, Digit.ofChar? c = none ∧ c ≠ '.' ∧ c ≠ 'e' ∧ c ≠ 'E'

/-- Written digits are read back whole if no digit follows them. -/
theorem readDigits_text {digits : List Digit} (hne : digits ≠ []) {rest : List Char}
    (h : ∀ c ∈ rest.head?, Digit.ofChar? c = none) :
    readDigits (Digits.text digits ++ rest) = some (digits, rest) := by
  have hscan : Digits.scan (Digits.text digits ++ rest) = (digits, rest) :=
    Digits.scan_text_append digits fun c tail hrest => h c (by rw [hrest]; rfl)
  simp only [readDigits, hscan, if_neg hne]

/-- The fraction of a numeral, if it has one. -/
def fractionText (fraction : List Digit) : List Char :=
  if fraction = [] then [] else '.' :: Digits.text fraction

/-- A written fraction is read back. -/
theorem readFraction_text (fraction : List Digit) {rest : List Char}
    (h : ∀ c ∈ rest.head?, Digit.ofChar? c = none ∧ c ≠ '.') :
    readFraction (fractionText fraction ++ rest) = some (fraction, rest) := by
  by_cases hne : fraction = []
  · subst hne
    cases rest with
    | nil => rfl
    | cons c tail =>
      have hpoint : c ≠ '.' := (h c rfl).2
      simp [fractionText, readFraction, hpoint]
  · rw [fractionText, if_neg hne, List.cons_append, readFraction]
    exact readDigits_text hne fun c hc => (h c hc).1

/-- No digit is a sign. -/
theorem char_ne_sign (digit : Digit) : digit.char ≠ '-' ∧ digit.char ≠ '+' := by
  revert digit; decide

/-- The digits of a number start with a digit. -/
theorem text_ofNat_eq_cons (number : Nat) :
    ∃ digit rest, Digits.text (Digits.ofNat number) = Digit.char digit :: rest := by
  cases h : Digits.ofNat number with
  | nil => exact absurd h (Digits.ofNat_ne_nil number)
  | cons digit rest => exact ⟨digit, Digits.text rest, rfl⟩

/-- A written exponent is read back, with a plus sign or without. -/
theorem readExponent_exponentText (plus : Bool) (exponent : Int) {rest : List Char}
    (h : ∀ c ∈ rest.head?, Digit.ofChar? c = none) :
    readExponent (exponentText plus exponent ++ rest) = some (some exponent, rest) := by
  have hdigits := readDigits_text (Digits.ofNat_ne_nil exponent.natAbs) h
  have hvalue : Digits.value (Digits.ofNat exponent.natAbs) = exponent.natAbs :=
    Digits.value_ofNat _
  by_cases hneg : exponent < 0
  · simp only [exponentText, hneg, if_true, List.cons_append, List.nil_append, readExponent,
      readExponentValue, hdigits, true_or, Option.map_some, hvalue]
    congr 3
    omega
  · have habs : (exponent.natAbs : Int) = exponent := by omega
    cases plus with
    | true =>
      simp [exponentText, hneg, readExponent, readExponentValue, hdigits, hvalue, habs]
    | false =>
      obtain ⟨digit, others, htext⟩ := text_ofNat_eq_cons exponent.natAbs
      rw [htext, List.cons_append] at hdigits
      obtain ⟨hminus, hplus⟩ := char_ne_sign digit
      simp [exponentText, hneg, htext, readExponent, readExponentValue, hminus, hplus, hdigits,
        hvalue, habs]

/-- The exponent of a numeral, if it has one. -/
def exponentPart (plus : Bool) : Option Int → List Char
  | none => []
  | some exponent => exponentText plus exponent

/-- A numeral is written part by part. -/
theorem text_eq (plus : Bool) (numeral : Numeral) :
    numeral.text plus =
      signText numeral.negative ++ (Digits.text numeral.whole ++
        (fractionText numeral.fraction ++ exponentPart plus numeral.exponent)) := by
  simp only [text, fractionText, List.append_assoc]
  cases numeral.exponent <;> rfl

/-- A numeral with an exponent or without goes on with an `e` or not at all. -/
theorem head_exponentPart {plus : Bool} {exponent : Option Int} {rest : List Char} (h : Ends rest) :
    ∀ c ∈ (exponentPart plus exponent ++ rest).head?, Digit.ofChar? c = none ∧ c ≠ '.' := by
  intro c hc
  cases exponent with
  | none => exact ⟨(h c hc).1, (h c hc).2.1⟩
  | some exponent =>
    obtain rfl : 'e' = c := Option.some.inj hc
    decide

/-- What follows the digits before the point is no digit. -/
theorem head_fractionText {plus : Bool} {fraction : List Digit} {exponent : Option Int}
    {rest : List Char} (h : Ends rest) :
    ∀ c ∈ (fractionText fraction ++ (exponentPart plus exponent ++ rest)).head?,
      Digit.ofChar? c = none := by
  intro c hc
  by_cases hne : fraction = []
  · subst hne
    exact (head_exponentPart h c hc).1
  · rw [fractionText, if_neg hne] at hc
    obtain rfl : '.' = c := Option.some.inj hc
    decide

/-- The exponent of a numeral is read back. -/
theorem readExponent_exponentPart (plus : Bool) (exponent : Option Int) {rest : List Char}
    (h : Ends rest) : readExponent (exponentPart plus exponent ++ rest) = some (exponent, rest) := by
  cases exponent with
  | some exponent => exact readExponent_exponentText plus exponent fun c hc => (h c hc).1
  | none =>
    cases rest with
    | nil => rfl
    | cons c tail =>
      obtain ⟨-, -, hlower, hupper⟩ := h c rfl
      simp [exponentPart, readExponent, hlower, hupper]

end SqlSelect.Numeral
