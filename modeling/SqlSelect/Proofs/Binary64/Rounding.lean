import SqlSelect.Binary64.Nearest

/-!
# Rounding at the ends of the range

At both ends of the range of the reals the result of rounding is known without computing it: what
lies below half a step is rounded to zero, and from 2^1024 on there is no finite result.
-/

namespace SqlSelect

/-- Rounding never goes below the whole part. -/
theorem div_le_roundHalfEven (num den : Nat) : num / den ≤ roundHalfEven num den := by
  unfold roundHalfEven
  dsimp only
  repeat' split
  all_goals omega

namespace Binary64

/-- A number that reaches a power of two has at least its exponent. -/
theorem le_log2_of_le {number exponent : Nat} (h : twoPow exponent ≤ number) :
    exponent ≤ number.log2 := by
  have hpos := twoPow_pos exponent
  exact (Nat.le_log2 (by omega)).2 h

/-- The unit of the exponent field is the power of two that carries into it. -/
theorem fractionUnit_eq : fractionUnit = twoPow 52 := by decide +kernel

/-- Up to twice the unit a magnitude is its own number of steps. -/
theorem steps_of_lt {magnitude : Nat} (h : magnitude < 2 * fractionUnit) :
    steps magnitude = magnitude := by
  have hunit : 0 < fractionUnit := by decide
  have hfield : magnitude / fractionUnit < 2 := Nat.div_lt_of_lt_mul (Nat.mul_comm _ _ ▸ h)
  have hsplit := Nat.div_add_mod magnitude fractionUnit
  unfold steps
  split
  · rfl
  · next hne =>
    have hone : magnitude / fractionUnit = 1 :=
      Nat.le_antisymm (Nat.le_of_lt_succ hfield) (Nat.one_le_iff_ne_zero.2 hne)
    rw [hone] at hsplit ⊢
    simpa using hsplit

/-- What lies below half a step is rounded to zero. -/
theorem nearestMagnitude_eq_zero {num den : Nat} (h : 2 * (num * stepsPerUnit) < den) :
    nearestMagnitude num den = 0 := by
  have hquotient : num * stepsPerUnit / den = 0 := Nat.div_eq_of_lt (by omega)
  have hmod : num * stepsPerUnit % den = num * stepsPerUnit := Nat.mod_eq_of_lt (by omega)
  have hexcess : excessBits 0 = 0 := by decide
  simp [nearestMagnitude, hquotient, hexcess, roundHalfEven, hmod, h]

/-- From 2^1024 on there is no finite real to be rounded to. -/
theorem infiniteMagnitude_le_nearestMagnitude {num den : Nat} (hden : 0 < den)
    (h : twoPow 1024 * den ≤ num) : infiniteMagnitude ≤ nearestMagnitude num den := by
  have hquotient : twoPow 2098 ≤ num * stepsPerUnit / den := by
    rw [Nat.le_div_iff_mul_le hden]
    calc twoPow 2098 * den = twoPow 1024 * den * stepsPerUnit := by
          rw [stepsPerUnit, Nat.mul_right_comm, ← twoPow_add]
      _ ≤ num * stepsPerUnit := Nat.mul_le_mul_right _ h
  generalize hq : num * stepsPerUnit / den = quotient at hquotient
  have hne : quotient ≠ 0 := Nat.ne_of_gt (Nat.lt_of_lt_of_le (twoPow_pos 2098) hquotient)
  have hlog : 2098 ≤ quotient.log2 := le_log2_of_le hquotient
  have htwo : 2 * fractionUnit ≤ quotient := by
    refine Nat.le_trans ?_ hquotient
    decide +kernel
  have hexcess : excessBits quotient = quotient.log2 - 52 := if_neg (by omega)
  -- The significand keeps its leading bit, so it reaches the unit and carries past field 2046.
  have hsignificand : fractionUnit ≤
      roundHalfEven (num * stepsPerUnit) (den * twoPow (quotient.log2 - 52)) := by
    refine Nat.le_trans ?_ (div_le_roundHalfEven _ _)
    rw [← Nat.div_div_eq_div_mul, hq, Nat.le_div_iff_mul_le (twoPow_pos _), fractionUnit_eq,
      ← twoPow_add, Nat.add_sub_cancel' (by omega)]
    exact Nat.log2_self_le hne
  calc infiniteMagnitude = 2046 * fractionUnit + fractionUnit := by decide
    _ ≤ (quotient.log2 - 52) * fractionUnit +
          roundHalfEven (num * stepsPerUnit) (den * twoPow (quotient.log2 - 52)) :=
        Nat.add_le_add (Nat.mul_le_mul_right _ (by omega)) hsignificand
    _ = nearestMagnitude num den := by simp only [nearestMagnitude, hq, hexcess]

end Binary64

end SqlSelect
