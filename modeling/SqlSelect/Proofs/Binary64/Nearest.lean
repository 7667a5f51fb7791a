import Mathlib.Algebra.Order.Field.Basic
import Mathlib.Algebra.Order.Field.Rat
import Mathlib.Tactic.Linarith
import SqlSelect.Proofs.Binary64.Decimal

/-!
# The nearest real

A magnitude is nearest to a number if no other magnitude is nearer, and halfway between two it is the
even one. That is said here in rational numbers and without an algorithm, and it determines the
magnitude. A rounded quotient has it: between the two neighbours that the leading bits give, it is
decided by what the division leaves over, and everything else lies beyond one of them. So a numeral is
read as a real exactly if the real is finite, has the written sign and the nearest magnitude.
-/

namespace SqlSelect

open Binary64

namespace Binary64

/-- The number that a magnitude stands for. -/
def size (magnitude : Nat) : ℚ := steps magnitude / stepsPerUnit

theorem size_zero : size 0 = 0 := by
  have hsteps : steps 0 = 0 := rfl
  rw [size, hsteps, Nat.cast_zero, zero_div]

/-- No magnitude is nearer to a number, and halfway between two it is the even one. The exponent
field counts as one without an upper end. -/
structure IsNearest (exact : ℚ) (magnitude : Nat) : Prop where
  nearest : ∀ other, |size magnitude - exact| ≤ |size other - exact|
  even_of_tie : ∀ other, other ≠ magnitude → |size other - exact| = |size magnitude - exact| →
    magnitude % 2 = 0

/-- From one magnitude to the next there are as many steps as the exponent field says. -/
theorem steps_succ (magnitude : Nat) :
    steps (magnitude + 1) = steps magnitude + twoPow (magnitude / fractionUnit - 1) := by
  unfold steps fractionUnit
  by_cases hfield : (magnitude + 1) / 0x10000000000000 = magnitude / 0x10000000000000
  · have hmod : (magnitude + 1) % 0x10000000000000 = magnitude % 0x10000000000000 + 1 := by omega
    rw [hfield, hmod]
    split
    · next h => simp [h]
    · rw [← Nat.add_assoc, Nat.succ_mul]
  · have hmod : (magnitude + 1) % 0x10000000000000 = 0 := by omega
    rw [if_neg (by omega), hmod]
    split
    · next h =>
      obtain rfl : magnitude = 0x10000000000000 - 1 := by omega
      rfl
    · next h =>
      obtain ⟨less, hless⟩ := Nat.exists_eq_succ_of_ne_zero h
      have hsucc : (magnitude + 1) / 0x10000000000000 - 1 = less + 1 := by omega
      have hlast : 2 * 0x10000000000000 = 0x10000000000000 + magnitude % 0x10000000000000 + 1 := by omega
      rw [hsucc, hless, Nat.succ_sub_one, twoPow_succ, ← Nat.mul_assoc, ← Nat.succ_mul]
      congr 1

theorem size_strictMono : StrictMono size := by
  refine strictMono_nat_of_lt_succ fun magnitude => ?_
  have hunit : (0 : ℚ) < stepsPerUnit := Nat.cast_pos.2 (twoPow_pos 1074)
  have hsteps : steps magnitude < steps (magnitude + 1) := by
    have hpos := twoPow_pos (magnitude / fractionUnit - 1)
    rw [steps_succ]
    omega
  exact div_lt_div_of_pos_right (Nat.cast_lt.2 hsteps) hunit

/-- A number between two neighbours is nearest to the one that is not farther than the other, and
that is even if they are equally far. -/
theorem isNearest_of_between {low chosen : Nat} {exact : ℚ} (hlow : size low ≤ exact)
    (hhigh : exact ≤ size (low + 1))
    (hchosen : chosen = low ∧ |size low - exact| ≤ |size (low + 1) - exact| ∨
      chosen = low + 1 ∧ |size (low + 1) - exact| ≤ |size low - exact|)
    (htie : |size low - exact| = |size (low + 1) - exact| → chosen % 2 = 0) :
    IsNearest exact chosen := by
  have hnear : |size chosen - exact| ≤ |size low - exact| ∧
      |size chosen - exact| ≤ |size (low + 1) - exact| := by
    rcases hchosen with ⟨rfl, h⟩ | ⟨rfl, h⟩
    · exact ⟨le_rfl, h⟩
    · exact ⟨h, le_rfl⟩
  -- Whatever is neither of the two neighbours lies beyond one of them.
  have hbeyond : ∀ other, other ≠ low → other ≠ low + 1 →
      |size chosen - exact| < |size other - exact| := by
    intro other hne hne'
    rcases Nat.lt_or_gt_of_ne hne with hless | hmore
    · have hsize := size_strictMono hless
      refine hnear.1.trans_lt ?_
      rw [abs_of_nonpos (by linarith), abs_of_nonpos (by linarith)]
      linarith
    · have hsize := size_strictMono (show low + 1 < other by omega)
      refine hnear.2.trans_lt ?_
      rw [abs_of_nonneg (by linarith), abs_of_nonneg (by linarith)]
      linarith
  constructor
  · intro other
    by_cases hne : other = low
    · exact hne ▸ hnear.1
    by_cases hne' : other = low + 1
    · exact hne' ▸ hnear.2
    exact (hbeyond other hne hne').le
  · intro other hother hequal
    have hneighbour : other = low ∨ other = low + 1 := by
      by_contra hneither
      rw [not_or] at hneither
      exact (hbeyond other hneither.1 hneither.2).ne hequal.symm
    rcases hchosen with ⟨rfl, -⟩ | ⟨rfl, -⟩ <;> rcases hneighbour with rfl | rfl
    · exact absurd rfl hother
    · exact htie hequal.symm
    · exact htie hequal
    · exact absurd rfl hother

/-- Only one magnitude is nearest to a number. -/
theorem IsNearest.unique {exact : ℚ} {left right : Nat} (hleft : IsNearest exact left)
    (hright : IsNearest exact right) : left = right := by
  wlog hlt : left < right generalizing left right with H
  · rcases Nat.lt_trichotomy left right with h | h | h
    · exact absurd h hlt
    · exact h
    · exact (H hright hleft h).symm
  have hequal := le_antisymm (hleft.nearest right) (hright.nearest left)
  have hevenLeft := hleft.even_of_tie right (Nat.ne_of_gt hlt) hequal.symm
  have hevenRight := hright.even_of_tie left (Nat.ne_of_lt hlt) hequal
  -- Two even magnitudes have another one between them, which would be nearer.
  have hbelow := size_strictMono (Nat.lt_succ_self left)
  have habove := size_strictMono (show left + 1 < right by omega)
  have hnearer := hleft.nearest (left + 1)
  rcases abs_eq_abs.1 hequal with hsame | hmiddle
  · linarith
  · have hnear : |size (left + 1) - exact| < size right - exact := abs_lt.2 ⟨by linarith, by linarith⟩
    rw [hequal, abs_of_nonneg (by linarith)] at hnearer
    linarith

/-- A magnitude is nearest to its own size. -/
theorem isNearest_size (magnitude : Nat) : IsNearest (size magnitude) magnitude := by
  constructor
  · intro other
    rw [sub_self, abs_zero]
    exact abs_nonneg _
  · intro other hne hequal
    rw [sub_self, abs_zero, abs_eq_zero, sub_eq_zero] at hequal
    exact absurd (size_strictMono.injective hequal) hne

/-! ## The rounded quotient -/

/-- The leading bits of a quotient, and their place. -/
theorem leading_bits (quotient : Nat) :
    quotient / twoPow (excessBits quotient) < 2 * fractionUnit ∧
      (excessBits quotient ≠ 0 → fractionUnit ≤ quotient / twoPow (excessBits quotient)) := by
  unfold excessBits
  split
  · next hsmall => simpa using hsmall
  · next hlarge =>
    have hne : quotient ≠ 0 := by
      rintro rfl
      exact hlarge (by decide)
    have hunit : 2 * fractionUnit = twoPow 53 := by rw [fractionUnit_eq, ← twoPow_succ]
    have hlog : 53 ≤ quotient.log2 := le_log2_of_le (hunit ▸ Nat.le_of_not_lt hlarge)
    have hsplit : 52 + (quotient.log2 - 52) = quotient.log2 := by omega
    have hsplit' : 53 + (quotient.log2 - 52) = quotient.log2 + 1 := by omega
    constructor
    · rw [Nat.div_lt_iff_lt_mul (twoPow_pos _), hunit, ← twoPow_add, hsplit']
      exact Nat.lt_log2_self
    · intro _
      rw [Nat.le_div_iff_mul_le (twoPow_pos _), fractionUnit_eq, ← twoPow_add, hsplit]
      exact Nat.log2_self_le hne

/-- A magnitude and the next one, by their exponent field and their leading bits. -/
theorem steps_of_leading {spacing leading : Nat} (hhigh : leading < 2 * fractionUnit)
    (hlow : spacing ≠ 0 → fractionUnit ≤ leading) :
    steps (spacing * fractionUnit + leading) = leading * twoPow spacing ∧
      steps (spacing * fractionUnit + leading + 1) = (leading + 1) * twoPow spacing := by
  by_cases hzero : spacing = 0
  · subst hzero
    have hfield : leading / fractionUnit - 1 = 0 := by
      have := Nat.div_lt_of_lt_mul (Nat.mul_comm _ _ ▸ hhigh)
      omega
    rw [Nat.zero_mul, Nat.zero_add, steps_succ, steps_of_lt hhigh, hfield]
    simp
  · obtain ⟨rest, rfl⟩ := Nat.exists_eq_add_of_le (hlow hzero)
    have hunit : 0 < fractionUnit := by decide
    have hrest : rest < fractionUnit := by omega
    have hword : spacing * fractionUnit + (fractionUnit + rest) =
        fractionUnit * (spacing + 1) + rest := by
      rw [Nat.mul_succ, Nat.mul_comm spacing, Nat.add_assoc]
    have hfield : (fractionUnit * (spacing + 1) + rest) / fractionUnit = spacing + 1 := by
      rw [Nat.mul_add_div hunit, Nat.div_eq_of_lt hrest, Nat.add_zero]
    have hsteps : steps (fractionUnit * (spacing + 1) + rest) =
        (fractionUnit + rest) * twoPow spacing := by
      rw [steps, hfield, if_neg (Nat.succ_ne_zero spacing), Nat.mul_add_mod, Nat.mod_eq_of_lt hrest,
        Nat.add_sub_cancel]
    rw [hword]
    exact ⟨hsteps, by rw [steps_succ, hsteps, hfield, Nat.add_sub_cancel, Nat.succ_mul]⟩

/-- Rounding goes to the nearer neighbour, and to the even one from halfway. -/
theorem roundHalfEven_spec (num den : Nat) :
    (roundHalfEven num den = num / den ∧ 2 * (num % den) ≤ den ∨
      roundHalfEven num den = num / den + 1 ∧ den ≤ 2 * (num % den)) ∧
      (2 * (num % den) = den → roundHalfEven num den % 2 = 0) := by
  unfold roundHalfEven
  dsimp only
  repeat' split
  all_goals omega

/-- How far a quotient lies above a magnitude, as one fraction. -/
theorem sub_size (num : Nat) {den : Nat} (hden : 0 < den) (magnitude : Nat) :
    (num : ℚ) / den - size magnitude =
      (num * stepsPerUnit - steps magnitude * den) / (den * stepsPerUnit) := by
  have hden' : (den : ℚ) ≠ 0 := Nat.cast_ne_zero.2 (Nat.ne_of_gt hden)
  have hunit : (stepsPerUnit : ℚ) ≠ 0 := Nat.cast_ne_zero.2 (Nat.ne_of_gt (twoPow_pos 1074))
  rw [size, div_sub_div _ _ hden' hunit, mul_comm (den : ℚ) (steps magnitude)]

/-- The rounded quotient is the magnitude nearest to it. -/
theorem isNearest_nearestMagnitude (num : Nat) {den : Nat} (hden : 0 < den) :
    IsNearest (num / den) (nearestMagnitude num den) := by
  unfold nearestMagnitude
  dsimp only
  generalize hspacing : excessBits (num * stepsPerUnit / den) = spacing
  have hleading := leading_bits (num * stepsPerUnit / den)
  rw [hspacing, Nat.div_div_eq_div_mul] at hleading
  obtain ⟨hsteps, hnext⟩ := steps_of_leading hleading.1 hleading.2
  obtain ⟨hround, hhalf⟩ := roundHalfEven_spec (num * stepsPerUnit) (den * twoPow spacing)
  have hwhole := Nat.div_add_mod (num * stepsPerUnit) (den * twoPow spacing)
  have hrest := Nat.mod_lt (num * stepsPerUnit) (Nat.mul_pos hden (twoPow_pos spacing))
  generalize roundHalfEven (num * stepsPerUnit) (den * twoPow spacing) = rounded at hround hhalf ⊢
  generalize num * stepsPerUnit / (den * twoPow spacing) = quotient at *
  generalize num * stepsPerUnit % (den * twoPow spacing) = rest at *
  generalize hlow : spacing * fractionUnit + quotient = low at hsteps hnext
  generalize hexact : (num / den : ℚ) = exact
  -- The two distances have one denominator, so they compare as the rest and what it lacks.
  have hscale : (0 : ℚ) < den * stepsPerUnit :=
    mul_pos (Nat.cast_pos.2 hden) (Nat.cast_pos.2 (twoPow_pos 1074))
  have hcast : (den * twoPow spacing * quotient + rest : ℚ) = num * stepsPerUnit := by
    exact_mod_cast hwhole
  have hbelow : exact - size low = rest / (den * stepsPerUnit) := by
    rw [← hexact, sub_size num hden, hsteps]
    push_cast
    congr 1
    linarith
  have habove : size (low + 1) - exact = (den * twoPow spacing - rest) / (den * stepsPerUnit) := by
    rw [← hexact, ← neg_sub, sub_size num hden, hnext, ← neg_div]
    push_cast
    congr 1
    linarith
  have hlt : (rest : ℚ) < den * twoPow spacing := by exact_mod_cast hrest
  have hlow' : size low ≤ exact := sub_nonneg.1 (hbelow ▸ div_nonneg (Nat.cast_nonneg _) hscale.le)
  have hhigh : exact ≤ size (low + 1) :=
    sub_nonneg.1 (habove ▸ div_nonneg (by linarith) hscale.le)
  have hdistance : |size low - exact| = rest / (den * stepsPerUnit) := by
    rw [abs_sub_comm, abs_of_nonneg (by linarith), hbelow]
  have hdistance' : |size (low + 1) - exact| =
      (den * twoPow spacing - rest) / (den * stepsPerUnit) := by
    rw [abs_of_nonneg (by linarith), habove]
  have hparity : low % 2 = quotient % 2 := by
    rw [← hlow, fractionUnit]
    omega
  apply isNearest_of_between hlow' hhigh
  · rw [hdistance, hdistance', div_le_div_iff_of_pos_right hscale, div_le_div_iff_of_pos_right hscale]
    rcases hround with ⟨rfl, hnear⟩ | ⟨rfl, hnear⟩
    · have hnear' : (2 * rest : ℚ) ≤ den * twoPow spacing := by exact_mod_cast hnear
      exact .inl ⟨hlow, by linarith⟩
    · have hnear' : (den * twoPow spacing : ℚ) ≤ 2 * rest := by exact_mod_cast hnear
      exact .inr ⟨by omega, by linarith⟩
  · rw [hdistance, hdistance', div_left_inj' hscale.ne']
    intro hequal
    have htie : 2 * rest = den * twoPow spacing := by
      have hequal' : (2 * rest : ℚ) = den * twoPow spacing := by linarith
      exact_mod_cast hequal'
    have heven := hhalf htie
    rw [fractionUnit]
    omega

/-! ## Decimals -/

/-- The rounded decimal is the magnitude nearest to it. -/
theorem isNearest_nearestDecimal (coefficient : Nat) (scale : Int) :
    IsNearest (coefficient * 10 ^ scale) (nearestDecimal coefficient scale) := by
  unfold nearestDecimal
  split
  · next h =>
    obtain ⟨power, rfl⟩ := Int.eq_ofNat_of_zero_le h
    have hnearest := isNearest_nearestMagnitude (coefficient * tenPow power) Nat.one_pos
    simpa [tenPow] using hnearest
  · next h =>
    obtain ⟨power, hpower⟩ := Int.eq_ofNat_of_zero_le (a := -scale) (by omega)
    obtain rfl : scale = -power := by omega
    have hnearest := isNearest_nearestMagnitude coefficient (tenPow_pos power)
    simpa [tenPow, div_eq_mul_inv] using hnearest

/-- A decimal is rounded to the magnitude nearest to it and to no other. -/
theorem nearestDecimal_eq_iff {coefficient : Nat} {scale : Int} {magnitude : Nat} :
    nearestDecimal coefficient scale = magnitude ↔ IsNearest (coefficient * 10 ^ scale) magnitude := by
  constructor
  · rintro rfl
    exact isNearest_nearestDecimal coefficient scale
  · exact (isNearest_nearestDecimal coefficient scale).unique

end Binary64

/-- A real is the nearest to a numeral: it is finite, has the sign that is written, and its magnitude
is the nearest to the written one. -/
def Binary64.IsNearestTo (x : Binary64) (numeral : Numeral) : Prop :=
  x.isFinite ∧ x.negative = numeral.negative ∧
    IsNearest (numeral.coefficient * 10 ^ numeral.scale) x.magnitude

theorem Numeral.toBinary64?_eq_some_iff {numeral : Numeral} {x : Binary64} :
    numeral.toBinary64? = some x ↔ x.IsNearestTo numeral := by
  have hnearest := isNearest_nearestDecimal numeral.coefficient numeral.scale
  rw [toBinary64?, ofDecimal?_eq, Binary64.IsNearestTo]
  constructor
  · intro h
    split at h
    · next hfinite =>
      obtain rfl := Option.some.inj h
      have hword : nearestDecimal numeral.coefficient numeral.scale < signUnit :=
        Nat.lt_trans hfinite (by decide)
      refine ⟨isFinite_ofParts _ hfinite, negative_ofParts _ hword, ?_⟩
      rwa [magnitude_ofParts _ hword]
    · cases h
  · rintro ⟨hfinite, hsign, hmagnitude⟩
    have hfinite' : x.magnitude < infiniteMagnitude := of_decide_eq_true hfinite
    rw [hnearest.unique hmagnitude, if_pos hfinite', ← hsign, ofParts_negative_magnitude]

end SqlSelect
