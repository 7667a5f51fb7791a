import SqlSelect.Json.Token
import SqlSelect.Proofs.Decimal.Digit

/-!
# Reading JSON tokens back

What is written for a string or a number is read as one token, whatever comes next; a number needs
that what comes next does not carry it on. A character that is written as four hexadecimal digits
comes back as a unit of UTF-16. Only control characters are written so, and they are no half of a
pair, so the units stand for the characters again.
-/

namespace SqlSelect

namespace JsonString

/-! ## Strings -/

/-- Control characters without a letter of their own are written as four hexadecimal digits. -/
def isWrittenInHex (c : Char) : Bool :=
  c.toNat < 0x20 && !(c.toNat ∈ [0x08, 0x09, 0x0a, 0x0c, 0x0d])

/-- What a written character is read as. -/
def piece (c : Char) : Piece := if isWrittenInHex c then .unit c.toNat else .char c

/-- The digits of a control character spell its code. -/
theorem hexValue4?_hexDigit {code : Nat} (h : code < 0x20) :
    hexValue4? '0' '0' (hexDigit (code / 16)) (hexDigit (code % 16)) = some code := by
  have hcodes : ∀ code < 0x20,
      hexValue4? '0' '0' (hexDigit (code / 16)) (hexDigit (code % 16)) = some code := by decide
  exact hcodes code h

/-- A character is the one with its code. -/
theorem eq_ofNat {c : Char} {code : Nat} (h : c.toNat = code) : c = Char.ofNat code := by
  rw [← h, Char.ofNat_toNat]

/-- A written character is read back as one piece. -/
theorem pieces?_escape (c : Char) (rest : List Char) :
    pieces? (escape c ++ rest) =
      (pieces? rest).map fun found => (piece c :: found.1, found.2) := by
  unfold escape
  split
  · next hquote => subst hquote; rfl
  split
  · next hbackslash => subst hbackslash; rfl
  split
  · next hcode => obtain rfl := eq_ofNat hcode; rfl
  split
  · next hcode => obtain rfl := eq_ofNat hcode; rfl
  split
  · next hcode => obtain rfl := eq_ofNat hcode; rfl
  split
  · next hcode => obtain rfl := eq_ofNat hcode; rfl
  split
  · next hcode => obtain rfl := eq_ofNat hcode; rfl
  next hquote hbackslash hb ht hn hf hr =>
  split
  · next hcontrol =>
    have hpiece : piece c = .unit c.toNat := by simp [piece, isWrittenInHex, *]
    simp only [List.cons_append, List.nil_append, pieces?, hexValue4?_hexDigit hcontrol, hpiece]
  · next hcontrol =>
    have hpiece : piece c = .char c := by simp [piece, isWrittenInHex, hcontrol]
    rw [List.singleton_append, pieces?, hpiece]
    · simp [hcontrol, hbackslash]
    all_goals simp [hquote, hbackslash]

/-- A written content is read up to its closing quote. -/
theorem pieces?_flatMap_escape (content rest : List Char) :
    pieces? (content.flatMap escape ++ '"' :: rest) = some (content.map piece, rest) := by
  induction content with
  | nil => rfl
  | cons c content ih =>
    rw [List.flatMap_cons, List.append_assoc, pieces?_escape, ih]
    rfl

/-- The pieces of a written content spell it. -/
theorem content?_map_piece (content : List Char) : content? (content.map piece) = some content := by
  induction content with
  | nil => rfl
  | cons c content ih =>
    rw [List.map_cons]
    by_cases hhex : isWrittenInHex c
    · have hcode : c.toNat < 0x20 := by simp [isWrittenInHex] at hhex; exact hhex.1
      have hhigh : isHighSurrogate c.toNat = false := by
        simp only [isHighSurrogate, Bool.and_eq_false_iff, decide_eq_false_iff_not]; omega
      have hlow : isLowSurrogate c.toNat = false := by
        simp only [isLowSurrogate, Bool.and_eq_false_iff, decide_eq_false_iff_not]; omega
      have hrest : content? (.unit c.toNat :: content.map piece) =
          (content? (content.map piece)).map (Char.ofNat c.toNat :: ·) := by
        cases content with
        | nil => simp [content?, hhigh, hlow]
        | cons next others =>
          rw [List.map_cons]
          cases piece next <;> simp [content?, hhigh, hlow]
      rw [piece, if_pos hhex, hrest, ih, Char.ofNat_toNat]
      rfl
    · rw [piece, if_neg hhex, content?, ih]
      rfl

end JsonString

/-! ## Numbers -/

/-- The digits before the point may stand in JSON: there is one, and zero stands alone. -/
def Numeral.IsStandard (numeral : Numeral) : Prop :=
  ∃ first rest, numeral.whole = first :: rest ∧ (first = Digit.zero → rest = [])

/-- Integers are written without leading zeros. -/
theorem Numeral.isStandard_ofInt (number : Int) : (Numeral.ofInt number).IsStandard := by
  unfold IsStandard ofInt
  dsimp only
  by_cases hzero : number.natAbs = 0
  · rw [hzero]
    exact ⟨Digit.zero, [], by rw [Digits.ofNat]; rfl, fun _ => rfl⟩
  · have hhead := Digits.head_ofNat_ne_zero hzero
    cases hdigits : Digits.ofNat number.natAbs with
    | nil => exact absurd hdigits (Digits.ofNat_ne_nil _)
    | cons first rest =>
      refine ⟨first, rest, rfl, fun hfirst => absurd ?_ hhead⟩
      rw [hdigits, hfirst]
      rfl

namespace JsonToken

/-- Digits without a leading zero are read back. -/
theorem readWhole_text {first : Digit} {more : List Digit} (hzero : first = Digit.zero → more = [])
    {rest : List Char} (h : ∀ c ∈ rest.head?, Digit.ofChar? c = none) :
    readWhole (Digits.text (first :: more) ++ rest) = some (first :: more, rest) := by
  rw [readWhole, Numeral.readDigits_text (List.cons_ne_nil first more) h, Option.bind_some, if_neg]
  intro hleading
  obtain ⟨hhead, hlength⟩ := hleading
  have hmore : more = [] := hzero (Option.some.inj hhead)
  exact hlength (by rw [hmore]; rfl)

/-- A numeral without its sign is read back. -/
theorem readMagnitude_text (plus : Bool) {numeral : Numeral} (h : numeral.IsStandard)
    {rest : List Char} (hends : Numeral.Ends rest) :
    readMagnitude numeral.negative (Digits.text numeral.whole ++
        (Numeral.fractionText numeral.fraction ++
          (Numeral.exponentPart plus numeral.exponent ++ rest))) = some (numeral, rest) := by
  obtain ⟨first, more, hwhole, hzero⟩ := h
  obtain ⟨negative, whole, fraction, exponent⟩ := numeral
  obtain rfl : whole = first :: more := hwhole
  simp only [readMagnitude, bind, Option.bind, pure,
    readWhole_text hzero (Numeral.head_fractionText hends),
    Numeral.readFraction_text fraction (Numeral.head_exponentPart hends),
    Numeral.readExponent_exponentPart plus exponent hends]

/-- A digit is no mark and no letter of a word. -/
theorem digit_ne_marks (digit : Digit) :
    digit.char ≠ '\x7b' ∧ digit.char ≠ '\x7d' ∧ digit.char ≠ '[' ∧ digit.char ≠ ']' ∧
      digit.char ≠ ',' ∧ digit.char ≠ ':' ∧ digit.char ≠ '"' ∧ digit.char ≠ 'n' ∧
      digit.char ≠ 't' ∧ digit.char ≠ 'f' ∧ digit.char ≠ '-' ∧ isSpace digit.char = false := by
  revert digit; decide

/-- Where a numeral is written, its first character opens a number that is the numeral. -/
theorem read?_text (plus : Bool) {numeral : Numeral} (h : numeral.IsStandard) {rest : List Char}
    (hends : Numeral.Ends rest) :
    ∃ c tail, numeral.text plus ++ rest = c :: tail ∧ isSpace c = false ∧
      read? c tail = some (number numeral, rest) := by
  have hmagnitude := readMagnitude_text plus h hends
  obtain ⟨first, more, hwhole, -⟩ := h
  obtain ⟨hopenBrace, hcloseBrace, hopenBracket, hcloseBracket, hcomma, hcolon, hquote, hn, ht, hf,
    hminus, hspace⟩ := digit_ne_marks first
  rw [Numeral.text_eq, Numeral.signText]
  simp only [List.append_assoc]
  cases hnegative : numeral.negative with
  | true =>
    rw [hnegative] at hmagnitude
    refine ⟨'-', _, rfl, by decide, ?_⟩
    simp [read?, readNumber, hmagnitude]
  | false =>
    rw [hnegative, hwhole] at hmagnitude
    rw [hwhole]
    refine ⟨first.char, _, rfl, hspace, ?_⟩
    have hnumber : ∀ tail,
        readNumber (first.char :: tail) = readMagnitude false (first.char :: tail) := by
      intro tail
      unfold readNumber
      split
      · next heq => exact absurd (List.cons.inj heq).1 hminus
      · rfl
    simp only [read?, hopenBrace, hcloseBrace, hopenBracket, hcloseBracket, hcomma, hcolon, hquote,
      hn, ht, hf, if_false, hnumber]
    simp only [Digits.text, List.map_cons, List.cons_append] at hmagnitude
    rw [List.append_eq, hmagnitude]
    rfl

end JsonToken

/-! ## Tokens -/

open JsonToken

/-- A token that is read at the first character comes first. -/
theorem jsonTokens_cons {c : Char} {rest after : List Char} {token : JsonToken}
    (hspace : isSpace c = false) (h : read? c rest = some (token, after)) :
    jsonTokens (c :: rest) = token :: jsonTokens after := by
  rw [jsonTokens, if_neg (by simp [hspace])]
  split
  · next heq => rw [h] at heq; cases heq
  · next heq =>
    rw [h] at heq
    obtain ⟨rfl, rfl⟩ := Prod.mk.inj (Option.some.inj heq)
    rfl

/-- A written number is one token. -/
theorem jsonTokens_number (plus : Bool) {numeral : Numeral} (h : numeral.IsStandard)
    {rest : List Char} (hends : Numeral.Ends rest) :
    jsonTokens (numeral.text plus ++ rest) = .number numeral :: jsonTokens rest := by
  obtain ⟨c, tail, htext, hspace, hread⟩ := read?_text plus h hends
  rw [htext, jsonTokens_cons hspace hread]

/-- A written string is one token. -/
theorem jsonTokens_write (content : String) (rest : List Char) :
    jsonTokens (JsonString.write content.toList ++ rest) =
      .string (some content) :: jsonTokens rest := by
  have htext : JsonString.write content.toList ++ rest =
      '"' :: (content.toList.flatMap JsonString.escape ++ '"' :: rest) := by
    simp [JsonString.write]
  have hread : read? '"' (content.toList.flatMap JsonString.escape ++ '"' :: rest) =
      some (.string (some content), rest) := by
    simp [read?, readString, JsonString.pieces?_flatMap_escape, JsonString.content?_map_piece]
  rw [htext, jsonTokens_cons rfl hread]

end SqlSelect
