import SqlSelect.Decimal.Reading
import SqlSelect.Json.Quoting

/-!
# JSON tokens

A JSON text is split into marks, words, numbers and strings with white space between them. Each
token is as long as it can be. Where no token can be read the list ends with a fault, and what
follows is not looked at.
-/

namespace SqlSelect

/-- A token of a JSON text. -/
inductive JsonToken where
  | openBrace
  | closeBrace
  | openBracket
  | closeBracket
  | comma
  | colon
  | null
  | bool (b : Bool)
  | number (numeral : Numeral)
  /-- A string and its content; without one, its escapes spell no text. -/
  | string (content : Option String)
  /-- The place where no token can be read. -/
  | fault
deriving DecidableEq

namespace JsonToken

/-- The four characters that JSON takes for white space. -/
def isSpace (c : Char) : Bool := c = ' ' || c = '\t' || c = '\n' || c = '\r'

/-- A text without a given word at its start. -/
def dropWord? : List Char → List Char → Option (List Char)
  | [], text => some text
  | _ :: _, [] => none
  | c :: word, d :: text => if c = d then dropWord? word text else none

/-- The digits before the point: zero alone, or digits that do not start with zero. -/
def readWhole (text : List Char) : Option (List Digit × List Char) :=
  (Numeral.readDigits text).bind fun run =>
    if run.1.head? = some Digit.zero ∧ run.1.length ≠ 1 then none else some run

/-- A number without its sign, and what follows it. -/
def readMagnitude (negative : Bool) (text : List Char) : Option (Numeral × List Char) := do
  let (whole, text) ← readWhole text
  let (fraction, text) ← Numeral.readFraction text
  let (exponent, text) ← Numeral.readExponent text
  pure (⟨negative, whole, fraction, exponent⟩, text)

/-- A number, and what follows it. -/
def readNumber : List Char → Option (Numeral × List Char)
  | '-' :: rest => readMagnitude true rest
  | text => readMagnitude false text

/-- A string after its opening quote, and what follows it. -/
def readString (text : List Char) : Option (Option String × List Char) :=
  (JsonString.pieces? text).map fun found =>
    ((JsonString.content? found.1).map String.ofList, found.2)

/-- The token that starts with a given character, and what follows it. -/
def read? (c : Char) (rest : List Char) : Option (JsonToken × List Char) :=
  if c = '\x7b' then some (openBrace, rest)
  else if c = '\x7d' then some (closeBrace, rest)
  else if c = '[' then some (openBracket, rest)
  else if c = ']' then some (closeBracket, rest)
  else if c = ',' then some (comma, rest)
  else if c = ':' then some (colon, rest)
  else if c = '"' then (readString rest).map fun found => (string found.1, found.2)
  else if c = 'n' then (dropWord? "ull".toList rest).map fun rest => (null, rest)
  else if c = 't' then (dropWord? "rue".toList rest).map fun rest => (bool true, rest)
  else if c = 'f' then (dropWord? "alse".toList rest).map fun rest => (bool false, rest)
  else (readNumber (c :: rest)).map fun found => (number found.1, found.2)

/-! ## What a reader leaves over -/

/-- What follows a word is no longer than the text. -/
theorem length_dropWord? {word text rest : List Char} (h : dropWord? word text = some rest) :
    rest.length ≤ text.length := by
  induction word generalizing text with
  | nil => simp [← Option.some.inj h]
  | cons c word ih =>
    cases text with
    | nil => simp [dropWord?] at h
    | cons d text =>
      rw [dropWord?] at h
      split at h
      · exact Nat.le_succ_of_le (ih h)
      · simp at h

theorem length_readWhole {text : List Char} {run : List Digit × List Char}
    (h : readWhole text = some run) : run.2.length < text.length := by
  obtain ⟨found, hfound, hrun⟩ := Option.bind_eq_some_iff.1 h
  split at hrun
  · simp at hrun
  · obtain rfl := Option.some.inj hrun
    exact Numeral.length_readDigits hfound

theorem length_readMagnitude {negative : Bool} {text : List Char} {found : Numeral × List Char}
    (h : readMagnitude negative text = some found) : found.2.length < text.length := by
  obtain ⟨whole, hwhole, h⟩ := Option.bind_eq_some_iff.1 h
  obtain ⟨fraction, hfraction, h⟩ := Option.bind_eq_some_iff.1 h
  obtain ⟨exponent, hexponent, h⟩ := Option.bind_eq_some_iff.1 h
  obtain rfl := Option.some.inj h
  have := length_readWhole hwhole
  have := Numeral.length_readFraction hfraction
  have := Numeral.length_readExponent hexponent
  dsimp only
  omega

/-- Reading a number takes at least one character. -/
theorem length_readNumber {text : List Char} {found : Numeral × List Char}
    (h : readNumber text = some found) : found.2.length < text.length := by
  unfold readNumber at h
  split at h
  · exact Nat.lt_succ_of_lt (length_readMagnitude h)
  · exact length_readMagnitude h

/-- A bound that holds for both outcomes of a test holds for the test. -/
theorem length_ite {p : Prop} [Decidable p] {first other : Option (JsonToken × List Char)}
    {limit : Nat} {found : JsonToken × List Char}
    (h : (if p then first else other) = some found)
    (hfirst : first = some found → found.2.length ≤ limit)
    (hother : other = some found → found.2.length ≤ limit) : found.2.length ≤ limit := by
  by_cases hp : p
  · rw [if_pos hp] at h
    exact hfirst h
  · rw [if_neg hp] at h
    exact hother h

theorem length_mark {token : JsonToken} {rest : List Char} {found : JsonToken × List Char}
    (h : some (token, rest) = some found) : found.2.length ≤ rest.length := by
  obtain rfl := Option.some.inj h
  exact Nat.le_refl _

theorem length_word {token : JsonToken} {word rest : List Char} {found : JsonToken × List Char}
    (h : (dropWord? word rest).map (fun after => (token, after)) = some found) :
    found.2.length ≤ rest.length := by
  obtain ⟨after, hafter, rfl⟩ := Option.map_eq_some_iff.1 h
  exact length_dropWord? hafter

/-- What follows a token is no longer than what follows its first character. -/
theorem length_read? {c : Char} {rest : List Char} {found : JsonToken × List Char}
    (h : read? c rest = some found) : found.2.length ≤ rest.length := by
  unfold read? at h
  iterate 6 refine length_ite h length_mark fun h => ?_
  refine length_ite h (fun h => ?_) fun h => ?_
  · obtain ⟨content, hcontent, rfl⟩ := Option.map_eq_some_iff.1 h
    obtain ⟨pieces, hpieces, rfl⟩ := Option.map_eq_some_iff.1 hcontent
    exact JsonString.length_pieces? hpieces
  iterate 3 refine length_ite h length_word fun h => ?_
  obtain ⟨number, hnumber, rfl⟩ := Option.map_eq_some_iff.1 h
  exact Nat.lt_succ_iff.1 (length_readNumber hnumber)

end JsonToken

open JsonToken in
/-- The tokens of a text, up to the place where none can be read. -/
def jsonTokens : List Char → List JsonToken
  | [] => []
  | c :: rest =>
    if isSpace c then jsonTokens rest
    else
      match h : read? c rest with
      | none => [fault]
      | some (token, after) =>
        have : after.length ≤ rest.length := length_read? h
        token :: jsonTokens after
termination_by text => text.length

end SqlSelect
