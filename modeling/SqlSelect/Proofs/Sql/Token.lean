import SqlSelect.Decimal.Reading
import SqlSelect.Json.Quoting
import SqlSelect.Text.Quoted

/-!
# SQL tokens

A reference reader of SQL text, which knows nothing of statements. A text is split into names in
double quotes, texts in single quotes, byte strings, numbers with or without a minus sign, words
and marks. A quote that is written twice stands for one inside a name or a text. Outside quotes
two minus signs open a comment up to the end of the line, and a slash with a star opens one up to
the star with a slash; comments are tokens here, so that a text without any can be told. Where no
token can be read there is no result.
-/

namespace SqlSelect

/-- A token of an SQL text. -/
inductive SqlToken where
  /-- A keyword or any other word that is not quoted. -/
  | word (letters : String)
  /-- A name in double quotes. -/
  | name (content : String)
  /-- A text in single quotes. -/
  | text (content : String)
  | blob (bytes : List UInt8)
  | number (numeral : Numeral)
  /-- An operator or a punctuation mark. -/
  | mark (symbol : String)
  | comment (content : String)
deriving DecidableEq

/-- The content of a quoted text after its opening quote, and what follows the closing one. -/
def Quoted.read? (quote : Char) : List Char → Option (List Char × List Char)
  | [] => none
  | [c] => if c = quote then some ([], []) else none
  | c :: d :: rest =>
    if c = quote then
      if d = quote then (read? quote rest).map fun found => (quote :: found.1, found.2)
      else some ([], d :: rest)
    else (read? quote (d :: rest)).map fun found => (c :: found.1, found.2)

namespace SqlToken

/-- The characters that stand between tokens. -/
def isSpace (c : Char) : Bool := c = ' ' || c = '\t' || c = '\n' || c = '\r'

/-- The characters of a word. -/
def isWordChar (c : Char) : Bool := c.isAlphanum || c = '_'

/-- The marks of two characters. -/
def doubleMarks : List (Char × Char) :=
  [('<', '='), ('>', '='), ('!', '='), ('<', '>'), ('=', '='), ('|', '|'), ('<', '<'), ('>', '>')]

/-- The marks of one character. -/
def singleMarks : List Char :=
  ['(', ')', ',', '.', ';', '*', '+', '-', '/', '%', '=', '<', '>', '&', '|', '~']

/-- The longest mark that starts with a character, and what follows it. -/
def readMark (c : Char) (rest : List Char) : Option (SqlToken × List Char) :=
  let single := if c ∈ singleMarks then some (mark (String.ofList [c]), rest) else none
  match rest with
  | [] => single
  | d :: after =>
    if (c, d) ∈ doubleMarks then some (mark (String.ofList [c, d]), after) else single

/-- The bytes of a byte string after its opening quote, and what follows the closing one. -/
def readBytes : List Char → Option (List UInt8 × List Char)
  | '\'' :: rest => some ([], rest)
  | high :: low :: rest =>
    match JsonString.hexValue? high, JsonString.hexValue? low with
    | some high, some low =>
      (readBytes rest).map fun found => (UInt8.ofNat (16 * high + low) :: found.1, found.2)
    | _, _ => none
  | _ => none

/-- A number without its sign, and what follows it. -/
def readNumber (negative : Bool) (text : List Char) : Option (SqlToken × List Char) := do
  let (whole, text) ← Numeral.readDigits text
  let (fraction, text) ← Numeral.readFraction text
  let (exponent, text) ← Numeral.readExponent text
  pure (number ⟨negative, whole, fraction, exponent⟩, text)

/-- The comment up to the end of a line, and what follows it. -/
def readLine (text : List Char) : SqlToken × List Char :=
  (comment (String.ofList (text.takeWhile (· ≠ '\n'))), text.dropWhile (· ≠ '\n'))

/-- The content of a comment up to its closing star and slash, and what follows them. -/
def readComment : List Char → Option (List Char × List Char)
  | '*' :: '/' :: rest => some ([], rest)
  | c :: rest => (readComment rest).map fun found => (c :: found.1, found.2)
  | [] => none

/-- The word that starts with a character, and what follows it. -/
def readWord (c : Char) (rest : List Char) : SqlToken × List Char :=
  (word (String.ofList (c :: rest.takeWhile isWordChar)), rest.dropWhile isWordChar)

/-- Whether a text starts with a given character. -/
def startsWith (c : Char) (text : List Char) : Bool := text.head? = some c

/-- Whether a text starts with a digit. -/
def startsWithDigit (text : List Char) : Bool := text.head?.any Char.isDigit

/-- The token that starts with a given character, and what follows it. -/
def read? (c : Char) (rest : List Char) : Option (SqlToken × List Char) :=
  if c = '"' then
    (Quoted.read? '"' rest).map fun found => (name (String.ofList found.1), found.2)
  else if c = '\'' then
    (Quoted.read? '\'' rest).map fun found => (text (String.ofList found.1), found.2)
  else if (c = 'X' || c = 'x') && startsWith '\'' rest then
    (readBytes rest.tail).map fun found => (blob found.1, found.2)
  else if c = '-' && startsWith '-' rest then
    some (readLine rest.tail)
  else if c = '/' && startsWith '*' rest then
    (readComment rest.tail).map fun found => (comment (String.ofList found.1), found.2)
  else if c = '-' && startsWithDigit rest then readNumber true rest
  else if c.isDigit then readNumber false (c :: rest)
  else if isWordChar c then some (readWord c rest)
  else readMark c rest

/-! ## What a reader leaves over -/

/-- What follows a quoted text is no longer than the text with its closing quote. -/
theorem length_readQuoted {quote : Char} {text : List Char} {found : List Char × List Char}
    (h : Quoted.read? quote text = some found) : found.2.length ≤ text.length := by
  fun_induction Quoted.read? quote text generalizing found with
  | case1 => simp at h
  | case2 => simp [← Option.some.inj h]
  | case3 => simp at h
  | case4 rest ih =>
    obtain ⟨inner, hinner, hfound⟩ := Option.map_eq_some_iff.1 h
    have := ih hinner
    simp only [← hfound, List.length_cons]
    omega
  | case5 => simp [← Option.some.inj h]
  | case6 c d rest _ ih =>
    obtain ⟨inner, hinner, hfound⟩ := Option.map_eq_some_iff.1 h
    have hle := ih hinner
    rw [← hfound]
    exact Nat.le_succ_of_le hle

theorem length_readBytes {text : List Char} {found : List UInt8 × List Char}
    (h : readBytes text = some found) : found.2.length ≤ text.length := by
  fun_induction readBytes text generalizing found with
  | case1 => simp [← Option.some.inj h]
  | case2 _ _ rest _ _ _ _ _ ih =>
    obtain ⟨inner, hinner, rfl⟩ := Option.map_eq_some_iff.1 h
    have := ih hinner
    simp only [List.length_cons]
    omega
  | case3 => simp at h
  | case4 => simp at h

theorem length_readComment {text : List Char} {found : List Char × List Char}
    (h : readComment text = some found) : found.2.length ≤ text.length := by
  fun_induction readComment text generalizing found with
  | case1 rest => simp [← Option.some.inj h]; omega
  | case2 _ rest _ ih =>
    obtain ⟨inner, hinner, hfound⟩ := Option.map_eq_some_iff.1 h
    have hle := ih hinner
    rw [← hfound]
    exact Nat.le_succ_of_le hle
  | case3 => simp at h

/-- Reading a number takes at least one character. -/
theorem length_readNumber {negative : Bool} {text : List Char} {found : SqlToken × List Char}
    (h : readNumber negative text = some found) : found.2.length < text.length := by
  obtain ⟨whole, hwhole, h⟩ := Option.bind_eq_some_iff.1 h
  obtain ⟨fraction, hfraction, h⟩ := Option.bind_eq_some_iff.1 h
  obtain ⟨exponent, hexponent, h⟩ := Option.bind_eq_some_iff.1 h
  obtain rfl := Option.some.inj h
  have := Numeral.length_readDigits hwhole
  have := Numeral.length_readFraction hfraction
  have := Numeral.length_readExponent hexponent
  dsimp only
  omega

theorem length_readMark {c : Char} {rest : List Char} {found : SqlToken × List Char}
    (h : readMark c rest = some found) : found.2.length ≤ rest.length := by
  unfold readMark at h
  dsimp only at h
  repeat' split at h
  · obtain rfl := Option.some.inj h
    exact Nat.le_refl _
  · cases h
  · obtain rfl := Option.some.inj h
    exact Nat.le_succ _
  · obtain rfl := Option.some.inj h
    exact Nat.le_refl _
  · cases h

theorem length_dropWhile_le (p : Char → Bool) (text : List Char) :
    (text.dropWhile p).length ≤ text.length := (List.dropWhile_sublist p).length_le

/-- What follows a token is no longer than what follows its first character. -/
theorem length_read? {c : Char} {rest : List Char} {found : SqlToken × List Char}
    (h : read? c rest = some found) : found.2.length ≤ rest.length := by
  have htail : rest.tail.length ≤ rest.length := by simp
  unfold read? at h
  repeat' split at h
  · obtain ⟨inner, hinner, rfl⟩ := Option.map_eq_some_iff.1 h
    exact length_readQuoted hinner
  · obtain ⟨inner, hinner, rfl⟩ := Option.map_eq_some_iff.1 h
    exact length_readQuoted hinner
  · obtain ⟨inner, hinner, rfl⟩ := Option.map_eq_some_iff.1 h
    exact Nat.le_trans (length_readBytes hinner) htail
  · obtain rfl := Option.some.inj h
    exact Nat.le_trans (length_dropWhile_le _ _) htail
  · obtain ⟨inner, hinner, rfl⟩ := Option.map_eq_some_iff.1 h
    exact Nat.le_trans (length_readComment hinner) htail
  · exact Nat.le_of_lt (length_readNumber h)
  · exact Nat.lt_succ_iff.1 (length_readNumber h)
  · obtain rfl := Option.some.inj h
    exact length_dropWhile_le _ _
  · exact length_readMark h

end SqlToken

open SqlToken in
/-- The tokens of a text, if it can be read. -/
def sqlTokens? : List Char → Option (List SqlToken)
  | [] => some []
  | c :: rest =>
    if isSpace c then sqlTokens? rest
    else
      match h : read? c rest with
      | none => none
      | some (token, after) =>
        have : after.length ≤ rest.length := length_read? h
        (sqlTokens? after).map (token :: ·)
termination_by text => text.length

theorem sqlTokens?_nil : sqlTokens? [] = some [] := by rw [sqlTokens?]

/-- Space between tokens is passed over. -/
theorem sqlTokens?_space (rest : List Char) : sqlTokens? (' ' :: rest) = sqlTokens? rest := by
  rw [sqlTokens?, if_pos (by decide)]

/-- A token at the front of a text is the first of its tokens. -/
theorem sqlTokens?_cons {c : Char} {rest after : List Char} {token : SqlToken}
    (hspace : SqlToken.isSpace c = false) (h : SqlToken.read? c rest = some (token, after)) :
    sqlTokens? (c :: rest) = (sqlTokens? after).map (token :: ·) := by
  rw [sqlTokens?, if_neg (by simp [hspace])]
  split
  · next hnone => rw [h] at hnone; cases hnone
  · next found hfound =>
    rw [h] at hfound
    obtain ⟨rfl, rfl⟩ := Prod.mk.inj (Option.some.inj hfound)
    rfl

end SqlSelect
