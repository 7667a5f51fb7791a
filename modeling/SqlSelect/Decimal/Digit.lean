import SqlSelect.Decimal.Power

/-!
# Decimal digits

Digit sequences are read with the most significant digit first. A number is written without
leading zeros, or padded with zeros on the left to a least width; only the ten ASCII digits are
read.
-/

namespace SqlSelect

/-- A decimal digit. -/
abbrev Digit := Fin 10

namespace Digit

/-- The digit 0. -/
def zero : Digit := ⟨0, by decide⟩

/-- The ASCII character of a digit. -/
def char (digit : Digit) : Char := Char.ofNat (48 + digit.val)

/-- The digit that an ASCII character stands for. -/
def ofChar? (c : Char) : Option Digit :=
  if h : 48 ≤ c.toNat ∧ c.toNat ≤ 57 then some ⟨c.toNat - 48, by omega⟩ else none

@[simp] theorem ofChar?_char (digit : Digit) : ofChar? digit.char = some digit := by
  revert digit; decide

/-- A character is read as a digit only if it is the character of that digit. -/
theorem ofChar?_eq_some_iff {c : Char} {digit : Digit} :
    ofChar? c = some digit ↔ c = digit.char := by
  constructor
  · intro h
    unfold ofChar? at h
    split at h
    · next range =>
      obtain rfl := Option.some.inj h
      rw [char, show 48 + (c.toNat - 48) = c.toNat by omega, Char.ofNat_toNat]
    · exact absurd h (by simp)
  · rintro rfl
    exact ofChar?_char digit

end Digit

namespace Digits

/-- The number that a digit sequence stands for; no digits stand for zero. -/
def value (digits : List Digit) : Nat :=
  digits.foldl (fun number digit => 10 * number + digit.val) 0

/-- The digits of a number, without leading zeros; zero has the one digit 0. -/
def ofNat (number : Nat) : List Digit :=
  if small : number < 10 then [⟨number, small⟩]
  else ofNat (number / 10) ++ [⟨number % 10, Nat.mod_lt _ (by decide)⟩]
termination_by number

/-- The digits of a number with zeros on the left up to the given width. -/
def padded (width number : Nat) : List Digit :=
  List.replicate (width - (ofNat number).length) Digit.zero ++ ofNat number

/-- The ASCII text of a digit sequence. -/
def text (digits : List Digit) : List Char := digits.map Digit.char

/-- The longest run of digits at the start of a text, and what follows it. -/
def scan : List Char → List Digit × List Char
  | [] => ([], [])
  | c :: rest =>
    match Digit.ofChar? c with
    | some digit => (digit :: (scan rest).1, (scan rest).2)
    | none => ([], c :: rest)

/-- The longest run of digits at the start of a text that keeps to a limit, and what follows it. -/
def scanUpTo : Nat → List Char → List Digit × List Char
  | 0, text => ([], text)
  | _ + 1, [] => ([], [])
  | limit + 1, c :: rest =>
    match Digit.ofChar? c with
    | some digit => (digit :: (scanUpTo limit rest).1, (scanUpTo limit rest).2)
    | none => ([], c :: rest)

/-- Without the trailing zeros. -/
def stripTrailingZeros (digits : List Digit) : List Digit :=
  (digits.reverse.dropWhile (· = Digit.zero)).reverse

theorem value_append (left right : List Digit) :
    value (left ++ right) = value left * tenPow right.length + value right := by
  have shift : ∀ (digits : List Digit) (start : Nat),
      digits.foldl (fun number digit => 10 * number + digit.val) start =
        start * tenPow digits.length + value digits := by
    intro digits
    induction digits with
    | nil => intro start; simp [value]
    | cons digit rest ih =>
      intro start
      have head : value (digit :: rest) = digit.val * tenPow rest.length + value rest := by
        rw [value, List.foldl_cons, ih, Nat.mul_zero, Nat.zero_add]
      rw [List.foldl_cons, ih, head, List.length_cons, tenPow_succ, Nat.add_mul,
        ← Nat.mul_assoc, Nat.mul_comm 10 start, Nat.add_assoc]
  rw [value, List.foldl_append]
  exact shift right _

/-- Writing a number in digits keeps its value. -/
theorem value_ofNat (number : Nat) : value (ofNat number) = number := by
  induction number using Nat.strongRecOn with
  | _ number ih =>
    rw [ofNat]
    split
    · simp [value]
    · rw [value_append, ih (number / 10) (by omega)]
      simp only [value, List.foldl_cons, List.foldl_nil, List.length_singleton, tenPow_succ,
        tenPow_zero]
      omega

/-- Every number has a digit. -/
theorem ofNat_ne_nil (number : Nat) : ofNat number ≠ [] := by
  rw [ofNat]
  split <;> simp

/-- Padding with zeros keeps the value. -/
theorem value_padded (width number : Nat) : value (padded width number) = number := by
  have zeros : ∀ n : Nat, value (List.replicate n Digit.zero) = 0 := by
    intro n
    induction n with
    | zero => rfl
    | succ n ih => rw [List.replicate_succ']; rw [value_append, ih]; rfl
  rw [padded, value_append, zeros, value_ofNat]
  simp

/-- Digits that are followed by something else are read back whole. -/
theorem scan_text_append (digits : List Digit) {rest : List Char}
    (h : ∀ c tail, rest = c :: tail → Digit.ofChar? c = none) :
    scan (text digits ++ rest) = (digits, rest) := by
  induction digits with
  | nil =>
    cases rest with
    | nil => rfl
    | cons c tail => simp [text, scan, h c tail rfl]
  | cons digit others ih =>
    rw [text, List.map_cons, List.cons_append, scan, Digit.ofChar?_char]
    simp only
    rw [text] at ih
    rw [ih]

/-- A scan loses nothing. -/
theorem scan_append (cs : List Char) : text (scan cs).1 ++ (scan cs).2 = cs := by
  induction cs with
  | nil => rfl
  | cons c rest ih =>
    rw [scan]
    split
    · next digit h =>
      simp only [text, List.map_cons, List.cons_append, List.cons.injEq] at ih ⊢
      exact ⟨(Digit.ofChar?_eq_some_iff.1 h).symm, ih⟩
    · rfl

end Digits

end SqlSelect
