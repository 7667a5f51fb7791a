import SqlSelect.Decimal.Power

/-!
# Reals as 64-bit words

A real is kept as its IEEE 754 binary64 word, so two reals are equal exactly when their bits
are: zeros of different sign and NaNs of different payload stay apart. The fields are read off
the word in natural numbers. The magnitude of a finite word is a whole number of smallest steps
of 2^-1074, and that number grows with the word. No floating-point arithmetic is used.
-/

namespace SqlSelect

/-- A binary64 word. -/
structure Binary64 where
  bits : UInt64
deriving DecidableEq

namespace Binary64

/-- The word as a natural number. -/
def word (x : Binary64) : Nat := x.bits.toNat

/-- The sign bit, as a number. -/
def signUnit : Nat := 0x8000000000000000

/-- The last bit of the exponent field, as a number: 2^52. -/
def fractionUnit : Nat := 0x10000000000000

/-- The number of steps of 2^-1074 in one. -/
def stepsPerUnit : Nat := twoPow 1074

/-- Whether the sign bit is set. -/
def negative (x : Binary64) : Bool := decide (signUnit ≤ x.word)

/-- The word without its sign bit. -/
def magnitude (x : Binary64) : Nat := x.word % signUnit

/-- The magnitude of the infinities; what lies above is not a number. -/
def infiniteMagnitude : Nat := 2047 * fractionUnit

/-- Not a number. -/
def isNaN (x : Binary64) : Bool := decide (infiniteMagnitude < x.magnitude)

/-- An infinity of either sign. -/
def isInfinite (x : Binary64) : Bool := decide (x.magnitude = infiniteMagnitude)

/-- Neither an infinity nor a NaN. -/
def isFinite (x : Binary64) : Bool := decide (x.magnitude < infiniteMagnitude)

/-- The number of steps of 2^-1074 that a finite magnitude stands for. -/
def steps (magnitude : Nat) : Nat :=
  if magnitude / fractionUnit = 0 then magnitude
  else (fractionUnit + magnitude % fractionUnit) * twoPow (magnitude / fractionUnit - 1)

/-- The word with the given sign and magnitude. -/
def ofParts (negative : Bool) (magnitude : Nat) : Binary64 :=
  ⟨UInt64.ofNat ((if negative then signUnit else 0) + magnitude)⟩

/-- The NaN that reading produces. -/
def quietNaN : Binary64 := ⟨0x7ff8000000000000⟩

/-- The positive infinity. -/
def infinity : Binary64 := ofParts false infiniteMagnitude

/-- The negative infinity. -/
def negativeInfinity : Binary64 := ofParts true infiniteMagnitude

/-- Every NaN as the one that reading produces, everything else as it is. -/
def canonical (x : Binary64) : Binary64 := if x.isNaN then quietNaN else x

/-- A word is its sign and its magnitude. -/
theorem word_eq (x : Binary64) : x.word = (if x.negative then signUnit else 0) + x.magnitude := by
  have bound : x.word < 18446744073709551616 := x.bits.toNat_lt
  unfold negative magnitude
  by_cases h : signUnit ≤ x.word
  · rw [decide_eq_true h, if_pos rfl]
    unfold signUnit at h ⊢
    omega
  · rw [decide_eq_false h, if_neg Bool.false_ne_true]
    unfold signUnit at h ⊢
    omega

/-- Building a word from its parts gives the word back. -/
theorem ofParts_negative_magnitude (x : Binary64) : ofParts x.negative x.magnitude = x := by
  rw [ofParts, ← word_eq]
  obtain ⟨bits⟩ := x
  simp [word]

theorem word_ofParts (negative : Bool) {magnitude : Nat} (h : magnitude < signUnit) :
    (ofParts negative magnitude).word = (if negative then signUnit else 0) + magnitude := by
  unfold word ofParts signUnit at *
  simp only [UInt64.toNat_ofNat']
  apply Nat.mod_eq_of_lt
  cases negative <;> simp <;> omega

@[simp] theorem negative_ofParts (negative : Bool) {magnitude : Nat} (h : magnitude < signUnit) :
    (ofParts negative magnitude).negative = negative := by
  rw [Binary64.negative, word_ofParts negative h]
  unfold signUnit at *
  cases negative <;> simp
  exact h

@[simp] theorem magnitude_ofParts (negative : Bool) {magnitude : Nat} (h : magnitude < signUnit) :
    (ofParts negative magnitude).magnitude = magnitude := by
  rw [Binary64.magnitude, word_ofParts negative h]
  unfold signUnit at *
  cases negative <;> simp <;> omega

end Binary64

end SqlSelect
