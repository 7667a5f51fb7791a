import SqlSelect.Proofs.Sql.Token
import SqlSelect.Sql.Text

/-!
# Reading back what is written

Each kind of token is read back from its written form. A name, a text, a number or a word could
run on into what follows it, so a reading says what may follow; a space, a comma or a parenthesis
stops every token. Two readings are put together where the second text is something that may follow
the first.
-/

namespace SqlSelect

namespace Quoted

/-- A character that is no quote is part of the content. -/
theorem read?_cons_of_ne {quote c : Char} (hc : c ≠ quote) {text : List Char} (hne : text ≠ []) :
    read? quote (c :: text) = (read? quote text).map fun found => (c :: found.1, found.2) := by
  cases text with
  | nil => exact absurd rfl hne
  | cons d rest => rw [read?, if_neg hc]

/-- Quoted content is read back if no further quote follows. -/
theorem read?_double (quote : Char) (content : List Char) {rest : List Char}
    (h : rest.head? ≠ some quote) :
    read? quote (double quote content ++ [quote] ++ rest) = some (content, rest) := by
  rw [List.append_assoc, List.singleton_append]
  induction content with
  | nil =>
    cases rest with
    | nil => simp [double, read?]
    | cons d tail =>
      have hd : d ≠ quote := fun e => h (by rw [e]; rfl)
      simp [double, read?, hd]
  | cons c content ih =>
    by_cases hc : c = quote
    · subst hc
      simp only [double, if_true, List.cons_append, read?, ih, Option.map_some]
    · rw [double, if_neg hc, List.cons_append, read?_cons_of_ne hc (by simp), ih]
      rfl

end Quoted

namespace SqlToken

/-- A hexadecimal digit is read as its value. -/
theorem hexValue?_hexDigit {digit : Nat} (h : digit < 16) :
    JsonString.hexValue? (Literal.hexDigit digit) = some digit := by
  have all : ∀ digit : Fin 16,
      JsonString.hexValue? (Literal.hexDigit digit.val) = some digit.val := by decide
  exact all ⟨digit, h⟩

/-- No hexadecimal digit is a quote. -/
theorem hexDigit_ne_quote {digit : Nat} (h : digit < 16) : Literal.hexDigit digit ≠ '\'' := by
  have all : ∀ digit : Fin 16, Literal.hexDigit digit.val ≠ '\'' := by decide
  exact all ⟨digit, h⟩

/-- Written bytes are read back. -/
theorem readBytes_byteText (bytes : List UInt8) (rest : List Char) :
    readBytes (bytes.flatMap Literal.byteText ++ '\'' :: rest) = some (bytes, rest) := by
  induction bytes with
  | nil => rfl
  | cons byte bytes ih =>
    have hbyte : byte.toNat < 256 := byte.toNat_lt
    have hhigh : byte.toNat / 16 < 16 := by omega
    have hlow : byte.toNat % 16 < 16 := by omega
    have hvalue : UInt8.ofNat (16 * (byte.toNat / 16) + byte.toNat % 16) = byte := by
      rw [Nat.div_add_mod]
      simp
    simp only [List.flatMap_cons, Literal.byteText, List.cons_append, List.nil_append]
    rw [readBytes]
    · simp only [hexValue?_hexDigit hhigh, hexValue?_hexDigit hlow, ih, Option.map_some, hvalue]
    · exact hexDigit_ne_quote hhigh

/-- A written magnitude is read back. -/
theorem readNumber_text (numeral : Numeral) (hwhole : numeral.whole ≠ []) {rest : List Char}
    (h : Numeral.Ends rest) :
    readNumber numeral.negative
      (Digits.text numeral.whole ++ (Numeral.fractionText numeral.fraction ++
        (Numeral.exponentPart false numeral.exponent ++ rest))) = some (number numeral, rest) := by
  simp only [readNumber, bind, Option.bind, pure,
    Numeral.readDigits_text hwhole (Numeral.head_fractionText h),
    Numeral.readFraction_text numeral.fraction (Numeral.head_exponentPart h),
    Numeral.readExponent_exponentPart false numeral.exponent h]

end SqlToken

open SqlToken

/-- A text is read as the given tokens if something of a certain form follows it. -/
def ReadsBefore (follows : List Char → Prop) (text : List Char) (tokens : List SqlToken) : Prop :=
  ∀ rest, follows rest → sqlTokens? (text ++ rest) = (sqlTokens? rest).map (tokens ++ ·)

/-- There is no condition on what follows. -/
def Anything (_ : List Char) : Prop := True

/-- What follows stops every token in front of it. -/
def Bounded (rest : List Char) : Prop := ∀ c ∈ rest.head?, c ∈ [' ', ',', '(', ')']

namespace ReadsBefore

variable {p q : List Char → Prop} {left right : List Char} {leftTokens rightTokens : List SqlToken}

/-- A reading holds also where less may follow. -/
theorem imp (h : ReadsBefore p left leftTokens) (hpq : ∀ rest, q rest → p rest) :
    ReadsBefore q left leftTokens := fun rest hrest => h rest (hpq rest hrest)

/-- The reading of a text is put in front of the reading of what may follow it. -/
theorem append (hleft : ReadsBefore p left leftTokens)
    (hfollows : ∀ rest, q rest → p (right ++ rest)) (hright : ReadsBefore q right rightTokens) :
    ReadsBefore q (left ++ right) (leftTokens ++ rightTokens) := by
  intro rest hrest
  rw [List.append_assoc, hleft _ (hfollows rest hrest), hright rest hrest, Option.map_map]
  simp only [Function.comp_def, List.append_assoc]

/-- A whole text is read as its tokens. -/
theorem sqlTokens?_eq (h : ReadsBefore p left leftTokens) (hnil : p []) :
    sqlTokens? left = some leftTokens := by
  have whole := h [] hnil
  rw [List.append_nil, sqlTokens?_nil] at whole
  simpa using whole

/-- The token at the front of a text is read. -/
theorem token {c : Char} {text : List Char} {token : SqlToken} (hspace : isSpace c = false)
    (h : ∀ rest, p rest → SqlToken.read? c (text ++ rest) = some (token, rest)) :
    ReadsBefore p (c :: text) [token] := fun rest hrest => sqlTokens?_cons hspace (h rest hrest)

end ReadsBefore

/-- A character that stops every token stops them also with more behind it. -/
theorem bounded_cons {c : Char} (hc : c ∈ [' ', ',', '(', ')']) (rest : List Char) :
    Bounded (c :: rest) := by
  intro d hd
  obtain rfl : c = d := Option.some.inj hd
  exact hc

/-- No character stops a token and is part of one. -/
theorem bounded_spec {rest : List Char} (h : Bounded rest) :
    ∀ c ∈ rest.head?, Digit.ofChar? c = none ∧ isWordChar c = false ∧ c ≠ '.' ∧ c ≠ '"' ∧
      c ≠ '\'' := by
  intro c hc
  have hstop := h c hc
  simp only [List.mem_cons, List.not_mem_nil, or_false] at hstop
  obtain rfl | rfl | rfl | rfl := hstop
  all_goals decide

/-! ## Single tokens -/

/-- Space between tokens leaves none. -/
theorem reads_space : ReadsBefore Anything [' '] [] := by
  intro rest _
  rw [List.singleton_append, sqlTokens?_space]
  simp

/-- A quoted name is one token. -/
theorem reads_quoteName (name : String) :
    ReadsBefore (fun rest => rest.head? ≠ some '"') (quoteName name) [SqlToken.name name] := by
  refine ReadsBefore.token (by decide) fun rest hrest => ?_
  change SqlToken.read? '"' (Quoted.double '"' name.toList ++ ['"'] ++ rest) = _
  rw [SqlToken.read?, if_pos rfl, Quoted.read?_double '"' name.toList hrest]
  simp

/-- A quoted text is one token. -/
theorem reads_quotedText (content : List Char) :
    ReadsBefore (fun rest => rest.head? ≠ some '\'') (Quoted.wrap '\'' content)
      [SqlToken.text (String.ofList content)] := by
  refine ReadsBefore.token (by decide) fun rest hrest => ?_
  change SqlToken.read? '\'' (Quoted.double '\'' content ++ ['\''] ++ rest) = _
  rw [SqlToken.read?, if_neg (by decide), if_pos rfl, Quoted.read?_double '\'' content hrest]
  rfl

/-- A byte string is one token. -/
theorem reads_blob (bytes : List UInt8) :
    ReadsBefore Anything (Literal.blob bytes).render [SqlToken.blob bytes] := by
  refine ReadsBefore.token (by decide) fun rest _ => ?_
  have hread := readBytes_byteText bytes rest
  simp [SqlToken.read?, startsWith, hread]

/-- A digit starts nothing but a number. -/
theorem char_plain (digit : Digit) :
    isSpace digit.char = false ∧ digit.char ≠ '"' ∧ digit.char ≠ '\'' ∧ digit.char ≠ 'X' ∧
      digit.char ≠ 'x' ∧ digit.char ≠ '-' ∧ digit.char ≠ '/' ∧ digit.char.isDigit = true := by
  revert digit; decide

/-- A written number is one token. -/
theorem reads_number (numeral : Numeral) (hwhole : numeral.whole ≠ []) :
    ReadsBefore Numeral.Ends (numeral.text false) [SqlToken.number numeral] := by
  intro rest hrest
  have hread := readNumber_text numeral hwhole hrest
  rw [Numeral.text_eq, List.append_assoc, List.append_assoc, List.append_assoc]
  cases hdigits : numeral.whole with
  | nil => exact absurd hdigits hwhole
  | cons digit digits =>
    obtain ⟨hspace, hname, htext, hupper, hlower, hminus, hslash, hdigit⟩ := char_plain digit
    rw [hdigits, Digits.text, List.map_cons, List.cons_append] at hread
    cases hsign : numeral.negative with
    | true =>
      rw [hsign] at hread
      refine sqlTokens?_cons (by decide) ?_
      simp [SqlToken.read?, Digits.text, startsWith, startsWithDigit, hminus, hdigit, hread]
    | false =>
      rw [hsign] at hread
      refine sqlTokens?_cons hspace ?_
      simp [SqlToken.read?, hname, htext, hupper, hlower, hminus, hslash, hdigit, hread]

/-- A word that starts no byte string: it begins with a letter other than X. -/
def isKeyword (letters : List Char) : Bool :=
  letters.head?.any (fun c => c.isAlpha && c ≠ 'X' && c ≠ 'x') && letters.all isWordChar

/-- A letter starts nothing but a word, if it starts no byte string. -/
theorem letter_plain {c : Char} (h : c.isAlpha = true) :
    isSpace c = false ∧ c ≠ '"' ∧ c ≠ '\'' ∧ c ≠ '-' ∧ c ≠ '/' ∧ c.isDigit = false := by
  have hrange : (65 ≤ c.toNat ∧ c.toNat ≤ 90) ∨ (97 ≤ c.toNat ∧ c.toNat ≤ 122) := by
    have hletter : (decide (c.val ≥ 65 ∧ c.val ≤ 90) || c.val ≥ 97 && c.val ≤ 122) = true := h
    simpa [UInt32.le_iff_toNat_le] using hletter
  have hne : ∀ d : Char, d.toNat < 65 → c ≠ d := by
    intro d hd heq
    rw [heq] at hrange
    omega
  refine ⟨?_, hne _ (by decide), hne _ (by decide), hne _ (by decide), hne _ (by decide), ?_⟩
  · simp [isSpace, hne ' ' (by decide), hne '\t' (by decide), hne '\n' (by decide),
      hne '\r' (by decide)]
  · simp only [Char.isDigit, Bool.and_eq_false_iff, decide_eq_false_iff_not, ge_iff_le,
      UInt32.le_iff_toNat_le]
    have hcode : c.val.toNat = c.toNat := rfl
    have hnine : '9'.val.toNat = 57 := rfl
    omega

/-- What follows a word is no part of it. -/
theorem takeWhile_dropWhile_word {letters rest : List Char} (hall : letters.all isWordChar = true)
    (h : ∀ c ∈ rest.head?, isWordChar c = false) :
    (letters ++ rest).takeWhile isWordChar = letters ∧
      (letters ++ rest).dropWhile isWordChar = rest := by
  have hmem : ∀ c ∈ letters, isWordChar c = true := List.all_eq_true.1 hall
  rw [List.takeWhile_append_of_pos hmem, List.dropWhile_append_of_pos hmem]
  cases rest with
  | nil => simp
  | cons c tail => simp [h c rfl]

/-- A keyword is one token if no further character of a word follows. -/
theorem reads_keyword (letters : String) (hword : isKeyword letters.toList = true) :
    ReadsBefore (fun rest => ∀ c ∈ rest.head?, isWordChar c = false) letters.toList
      [SqlToken.word letters] := by
  obtain ⟨hfirst, hall⟩ := Bool.and_eq_true_iff.1 hword
  cases hletters : letters.toList with
  | nil => rw [hletters] at hfirst; cases hfirst
  | cons c others =>
    rw [hletters] at hfirst hall
    simp only [List.head?_cons, Option.any_some, Bool.and_eq_true, decide_eq_true_eq] at hfirst
    obtain ⟨⟨halpha, hupper⟩, hlower⟩ := hfirst
    obtain ⟨hc, hothers⟩ := Bool.and_eq_true_iff.1 (List.all_cons ▸ hall)
    obtain ⟨hspace, hname, htext, hminus, hslash, hdigit⟩ := letter_plain halpha
    have hwhole : String.ofList (c :: others) = letters := by rw [← hletters, String.ofList_toList]
    refine ReadsBefore.token hspace fun rest hrest => ?_
    obtain ⟨htake, hdrop⟩ := takeWhile_dropWhile_word hothers hrest
    simp [SqlToken.read?, readWord, hname, htext, hupper, hlower, hminus, hslash, hdigit, hc, htake,
      hdrop, hwhole]

/-- The marks that no other mark starts with. -/
def plainMarks : List Char := ['(', ')', ',', '.', '*']

/-- Such a mark starts nothing but itself. -/
theorem mark_plain {c : Char} (hc : c ∈ plainMarks) :
    isSpace c = false ∧ c ≠ '"' ∧ c ≠ '\'' ∧ c ≠ 'X' ∧ c ≠ 'x' ∧ c ≠ '-' ∧ c ≠ '/' ∧
      c.isDigit = false ∧ isWordChar c = false ∧ c ∈ singleMarks := by
  simp only [plainMarks, List.mem_cons, List.not_mem_nil, or_false] at hc
  obtain rfl | rfl | rfl | rfl | rfl := hc
  all_goals decide

/-- Such a mark is one token whatever follows it. -/
theorem reads_mark {c : Char} (hc : c ∈ plainMarks) :
    ReadsBefore Anything [c] [SqlToken.mark (String.ofList [c])] := by
  have hdouble : ∀ d, (c, d) ∉ doubleMarks := by
    intro d
    simp only [plainMarks, List.mem_cons, List.not_mem_nil, or_false] at hc
    rcases hc with rfl | rfl | rfl | rfl | rfl <;> simp [doubleMarks]
  obtain ⟨hspace, hname, htext, hupper, hlower, hminus, hslash, hdigit, hword, hsingle⟩ :=
    mark_plain hc
  refine ReadsBefore.token hspace fun rest _ => ?_
  have hread : readMark c rest = some (SqlToken.mark (String.ofList [c]), rest) := by
    cases rest with
    | nil => simp [readMark, hsingle]
    | cons d tail => simp [readMark, hsingle, hdouble d]
  simp [SqlToken.read?, hname, htext, hupper, hlower, hminus, hslash, hdigit, hword, hread]

end SqlSelect
