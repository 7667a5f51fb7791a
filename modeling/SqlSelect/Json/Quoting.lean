/-!
# Strings in JSON

A string is written between double quotes. A double quote, a backslash and the control characters
below U+0020 are escaped, five of these by a letter and the others by four hexadecimal digits in
lower case; everything else is written as it is. A reader accepts every escape that JSON has. Four
digits spell a unit of UTF-16, so two escapes together may spell one character, and half of such
a pair alone spells none.
-/

namespace SqlSelect.JsonString

/-- A hexadecimal digit in lower case. -/
def hexDigit (digit : Nat) : Char := Char.ofNat (if digit < 10 then 48 + digit else 87 + digit)

/-- The value of a hexadecimal digit in either case. -/
def hexValue? (c : Char) : Option Nat :=
  let code := c.toNat
  if 48 ≤ code ∧ code ≤ 57 then some (code - 48)
  else if 65 ≤ code ∧ code ≤ 70 then some (code - 55)
  else if 97 ≤ code ∧ code ≤ 102 then some (code - 87)
  else none

/-- The value of four hexadecimal digits. -/
def hexValue4? (a b c d : Char) : Option Nat := do
  let a ← hexValue? a
  let b ← hexValue? b
  let c ← hexValue? c
  let d ← hexValue? d
  pure (((a * 16 + b) * 16 + c) * 16 + d)

/-- A character as it is written inside a string. -/
def escape (c : Char) : List Char :=
  if c = '"' then ['\\', '"']
  else if c = '\\' then ['\\', '\\']
  else if c.toNat = 0x08 then ['\\', 'b']
  else if c.toNat = 0x09 then ['\\', 't']
  else if c.toNat = 0x0a then ['\\', 'n']
  else if c.toNat = 0x0c then ['\\', 'f']
  else if c.toNat = 0x0d then ['\\', 'r']
  else if c.toNat < 0x20 then
    ['\\', 'u', '0', '0', hexDigit (c.toNat / 16), hexDigit (c.toNat % 16)]
  else [c]

/-- The text of a string. -/
def write (content : List Char) : List Char := '"' :: content.flatMap escape ++ ['"']

/-- What stands inside a string: a character, or an escaped unit of UTF-16. -/
inductive Piece where
  | char (c : Char)
  | unit (code : Nat)
deriving DecidableEq

/-- The character of an escape by one letter. -/
def letterEscape? (c : Char) : Option Char :=
  if c = '"' ∨ c = '\\' ∨ c = '/' then some c
  else if c = 'b' then some (Char.ofNat 0x08)
  else if c = 'f' then some (Char.ofNat 0x0c)
  else if c = 'n' then some (Char.ofNat 0x0a)
  else if c = 'r' then some (Char.ofNat 0x0d)
  else if c = 't' then some (Char.ofNat 0x09)
  else none

/-- The pieces of a string up to its closing quote, and what follows the quote. There are none if
the quote is missing, an escape is unknown, or a control character is not escaped. -/
def pieces? : List Char → Option (List Piece × List Char)
  | [] => none
  | '"' :: rest => some ([], rest)
  | '\\' :: 'u' :: a :: b :: c :: d :: rest =>
    match hexValue4? a b c d with
    | some code => (pieces? rest).map fun found => (.unit code :: found.1, found.2)
    | none => none
  | '\\' :: c :: rest =>
    match letterEscape? c with
    | some character => (pieces? rest).map fun found => (.char character :: found.1, found.2)
    | none => none
  | c :: rest =>
    if c.toNat < 0x20 ∨ c = '\\' then none
    else (pieces? rest).map fun found => (.char c :: found.1, found.2)

/-- What follows a string is no longer than the text. -/
theorem length_pieces? {text : List Char} {found : List Piece × List Char}
    (h : pieces? text = some found) : found.2.length ≤ text.length := by
  fun_induction pieces? text generalizing found with
  | case1 => simp at h
  | case2 rest => simp [← Option.some.inj h]
  | case3 a b c d rest code _ ih =>
    obtain ⟨inner, hinner, rfl⟩ := Option.map_eq_some_iff.1 h
    have := ih hinner
    simp only [List.length_cons]
    omega
  | case4 => simp at h
  | case5 c rest _ character _ ih =>
    obtain ⟨inner, hinner, rfl⟩ := Option.map_eq_some_iff.1 h
    have := ih hinner
    simp only [List.length_cons]
    omega
  | case6 => simp at h
  | case7 => simp at h
  | case8 c rest _ _ _ _ ih =>
    obtain ⟨inner, hinner, rfl⟩ := Option.map_eq_some_iff.1 h
    have := ih hinner
    simp only [List.length_cons]
    omega

/-- The first unit of a pair. -/
def isHighSurrogate (code : Nat) : Bool := 0xd800 ≤ code && code ≤ 0xdbff

/-- The second unit of a pair. -/
def isLowSurrogate (code : Nat) : Bool := 0xdc00 ≤ code && code ≤ 0xdfff

/-- The character that a pair of units spells. -/
def ofPair (high low : Nat) : Char :=
  Char.ofNat (0x10000 + (high - 0xd800) * 0x400 + (low - 0xdc00))

/-- The text that pieces spell, unless half of a pair stands alone. -/
def content? : List Piece → Option (List Char)
  | [] => some []
  | .char c :: rest => (content? rest).map (c :: ·)
  | .unit code :: .unit next :: rest =>
    if isHighSurrogate code then
      if isLowSurrogate next then (content? rest).map (ofPair code next :: ·) else none
    else if isLowSurrogate code then none
    else (content? (.unit next :: rest)).map (Char.ofNat code :: ·)
  | .unit code :: rest =>
    if isHighSurrogate code || isLowSurrogate code then none
    else (content? rest).map (Char.ofNat code :: ·)

end SqlSelect.JsonString
