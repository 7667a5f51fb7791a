import SqlSelect.Decimal.Digit

/-!
# What digit sequences stand for

The value of a digit sequence in terms of its parts: zeros at the left end change nothing, zeros at
the right end multiply by a power of ten, and the first digit of a positive number gives its power
of ten.
-/

namespace SqlSelect.Digits

/-- Zeros stand for nothing. -/
theorem value_replicate_zero (count : Nat) : value (List.replicate count Digit.zero) = 0 := by
  induction count with
  | zero => rfl
  | succ count ih => rw [List.replicate_succ', value_append, ih]; rfl

/-- Zeros at the right end multiply by a power of ten. -/
theorem value_append_zeros (digits : List Digit) (count : Nat) :
    value (digits ++ List.replicate count Digit.zero) = value digits * tenPow count := by
  rw [value_append, value_replicate_zero, List.length_replicate, Nat.add_zero]

/-- Zeros at the left end change nothing. -/
theorem value_zeros_append (count : Nat) (digits : List Digit) :
    value (List.replicate count Digit.zero ++ digits) = value digits := by
  rw [value_append, value_replicate_zero, Nat.zero_mul, Nat.zero_add]

/-- The first digit counts most. -/
theorem value_cons (digit : Digit) (rest : List Digit) :
    value (digit :: rest) = digit.val * tenPow rest.length + value rest := by
  have hsingle : value [digit] = digit.val := by simp [value]
  rw [← List.singleton_append, value_append, hsingle]

/-- Digits stand for less than the next power of ten. -/
theorem value_lt (digits : List Digit) : value digits < tenPow digits.length := by
  induction digits with
  | nil => decide
  | cons digit rest ih =>
    have hdigit : digit.val * tenPow rest.length ≤ 9 * tenPow rest.length :=
      Nat.mul_le_mul_right _ (by omega)
    rw [value_cons, List.length_cons, tenPow_succ]
    omega

/-- A number is below the power of ten with as many zeros as it has digits. -/
theorem lt_tenPow (number : Nat) : number < tenPow (ofNat number).length := by
  have hlt := value_lt (ofNat number)
  rwa [value_ofNat] at hlt

/-- The digits of a positive number do not start with zero. -/
theorem head_ofNat_ne_zero {number : Nat} (h : number ≠ 0) :
    (ofNat number).head? ≠ some Digit.zero := by
  induction number using Nat.strongRecOn with
  | _ number ih =>
    rw [ofNat]
    split
    · intro hzero
      exact h (congrArg Fin.val (Option.some.inj hzero))
    · have hrest : number / 10 ≠ 0 := by omega
      have hhead := ih (number / 10) (by omega) hrest
      cases hdigits : ofNat (number / 10) with
      | nil => exact absurd hdigits (ofNat_ne_nil _)
      | cons digit rest =>
        rw [hdigits] at hhead
        exact hhead

/-- A positive number reaches the power of ten of its first digit. -/
theorem tenPow_le {number : Nat} (h : number ≠ 0) :
    tenPow ((ofNat number).length - 1) ≤ number := by
  have hhead := head_ofNat_ne_zero h
  have hvalue := value_ofNat number
  cases hdigits : ofNat number with
  | nil => exact absurd hdigits (ofNat_ne_nil number)
  | cons digit rest =>
    rw [hdigits] at hhead hvalue
    have hdigit : 1 ≤ digit.val := by
      refine Nat.one_le_iff_ne_zero.2 fun hzero => hhead ?_
      exact congrArg some (Fin.ext hzero)
    have hfirst : 1 * tenPow rest.length ≤ digit.val * tenPow rest.length :=
      Nat.mul_le_mul_right _ hdigit
    rw [← hvalue, value_cons, List.length_cons, Nat.add_sub_cancel]
    omega

/-- A number below a power of ten has no more digits than the power has zeros. -/
theorem length_ofNat_le {width number : Nat} (hwidth : 0 < width) (h : number < tenPow width) :
    (ofNat number).length ≤ width := by
  induction width generalizing number with
  | zero => omega
  | succ width ih =>
    rw [ofNat]
    split
    · exact Nat.succ_le_succ (Nat.zero_le width)
    · next hlarge =>
      rw [tenPow_succ] at h
      have hmore : 0 < width := by
        by_cases hzero : width = 0
        · rw [hzero, tenPow_zero] at h
          omega
        · omega
      have hrest := ih hmore (show number / 10 < tenPow width by omega)
      rw [List.length_append, List.length_singleton]
      exact Nat.succ_le_succ hrest

/-- A number that fits a width is padded to exactly that width. -/
theorem length_padded {width number : Nat} (hwidth : 0 < width) (h : number < tenPow width) :
    (padded width number).length = width := by
  have hfits := length_ofNat_le hwidth h
  rw [padded, List.length_append, List.length_replicate]
  omega

/-- Padded digits are digits. -/
theorem padded_ne_nil (width number : Nat) : padded width number ≠ [] :=
  List.append_ne_nil_of_right_ne_nil _ (ofNat_ne_nil number)

/-- Stripping takes nothing but zeros. -/
theorem stripTrailingZeros_append (digits : List Digit) :
    ∃ count, digits = stripTrailingZeros digits ++ List.replicate count Digit.zero := by
  refine ⟨(digits.reverse.takeWhile (· = Digit.zero)).length, ?_⟩
  have hzeros : digits.reverse.takeWhile (· = Digit.zero) =
      List.replicate (digits.reverse.takeWhile (· = Digit.zero)).length Digit.zero :=
    List.eq_replicate_of_mem fun digit hdigit => by
      simpa using List.all_eq_true.1 List.all_takeWhile digit hdigit
  have hsplit := List.takeWhile_append_dropWhile (p := (· = Digit.zero)) (l := digits.reverse)
  rw [hzeros] at hsplit
  have hreverse := congrArg List.reverse hsplit
  rw [List.reverse_append, List.reverse_replicate, List.reverse_reverse] at hreverse
  exact hreverse.symm

/-- A number up to a power of ten has no more digits in front of its trailing zeros than the power has
zeros. -/
theorem length_stripTrailingZeros_le {width number : Nat} (hwidth : 0 < width)
    (h : number ≤ tenPow width) : (stripTrailingZeros (ofNat number)).length ≤ width := by
  have hstrip (digits : List Digit) : (stripTrailingZeros digits).length ≤ digits.length := by
    have hsublist := (List.dropWhile_sublist (l := digits.reverse) (· = Digit.zero)).length_le
    rwa [List.length_reverse, ← List.length_reverse, ← stripTrailingZeros] at hsublist
  by_cases hless : number < tenPow width
  · exact Nat.le_trans (hstrip _) (length_ofNat_le hwidth hless)
  · -- The zero at the end of the power of ten is stripped.
    obtain ⟨less, rfl⟩ : ∃ less, width = less + 1 := ⟨width - 1, by omega⟩
    have hpower : tenPow less < tenPow (less + 1) := by
      have hpos := tenPow_pos less
      rw [tenPow_succ]
      omega
    have hdigits : ofNat number = ofNat (tenPow less) ++ [Digit.zero] := by
      obtain rfl : number = 10 * tenPow less := by
        rw [← tenPow_succ]
        omega
      rw [ofNat, dif_neg (by omega)]
      simp [Digit.zero]
    have hsame : stripTrailingZeros (ofNat number) = stripTrailingZeros (ofNat (tenPow less)) := by
      rw [hdigits, stripTrailingZeros, List.reverse_append, List.reverse_singleton,
        List.singleton_append, List.dropWhile_cons_of_pos (by simp)]
      rfl
    rw [hsame]
    exact Nat.le_trans (hstrip _) (length_ofNat_le hwidth hpower)

end SqlSelect.Digits
