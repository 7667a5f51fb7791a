import Mathlib.Data.Nat.Cast.Order.Field
import SqlSelect.Proofs.Binary64.ReadBack

/-!
# Magnitudes on a decimal grid

The numbers that are rounded to one magnitude form an interval around it, which is not small beside the
magnitude. So on the grid of a power of ten only the two neighbours of the magnitude have to be tried:
if any point of the grid is rounded back, one of them is. The rule for equally near decimals decides if
both are and the magnitude is in the middle of them, and in no other case.
-/

namespace SqlSelect

/-- Which of two equally near points of a grid is chosen, by the lower one. -/
def TieRule.choose : TieRule → Nat → Nat
  | toEven, low => if low % 2 = 0 then low else low + 1
  | awayFromZero, low => low + 1

namespace Binary64

/-! ## The numbers that are rounded to one magnitude -/

/-- A number is not farther from the lower of two than from the higher one if it is not above their
middle. -/
theorem abs_sub_le_iff_le_middle {low high exact : ℚ} (h : low < high) :
    |low - exact| ≤ |high - exact| ↔ 2 * exact ≤ low + high := by
  rw [← sq_le_sq]
  constructor <;> intro hle <;> nlinarith

/-- A number is not farther from the higher of two than from the lower one if it is not below their
middle. -/
theorem abs_sub_le_iff_middle_le {low high exact : ℚ} (h : low < high) :
    |high - exact| ≤ |low - exact| ↔ low + high ≤ 2 * exact := by
  rw [← sq_le_sq]
  constructor <;> intro hle <;> nlinarith

/-- Between two numbers with the same nearest magnitude every number has it. -/
theorem IsNearest.of_between {left right exact : ℚ} {magnitude : Nat} (hleft : IsNearest left magnitude)
    (hright : IsNearest right magnitude) (hlow : left ≤ exact) (hhigh : exact ≤ right) :
    IsNearest exact magnitude := by
  constructor
  · intro other
    rcases Nat.lt_trichotomy other magnitude with hless | rfl | hmore
    · have hmiddle := (abs_sub_le_iff_middle_le (size_strictMono hless)).1 (hleft.nearest other)
      exact (abs_sub_le_iff_middle_le (size_strictMono hless)).2 (by linarith)
    · exact le_rfl
    · have hmiddle := (abs_sub_le_iff_le_middle (size_strictMono hmore)).1 (hright.nearest other)
      exact (abs_sub_le_iff_le_middle (size_strictMono hmore)).2 (by linarith)
  · intro other hne hequal
    -- A number in the middle of two magnitudes is the end of the interval on that side.
    rcases Nat.lt_or_gt_of_ne hne with hless | hmore
    · have hmiddle := (abs_sub_le_iff_middle_le (size_strictMono hless)).1 (hleft.nearest other)
      have hmiddle' := (abs_sub_le_iff_le_middle (size_strictMono hless)).1 hequal.le
      obtain rfl : left = exact := by linarith
      exact hleft.even_of_tie other hne hequal
    · have hmiddle := (abs_sub_le_iff_le_middle (size_strictMono hmore)).1 (hright.nearest other)
      have hmiddle' := (abs_sub_le_iff_middle_le (size_strictMono hmore)).1 hequal.le
      obtain rfl : right = exact := by linarith
      exact hright.even_of_tie other hne hequal

theorem size_pos {magnitude : Nat} (h : magnitude ≠ 0) : 0 < size magnitude := by
  have hsize := size_strictMono (Nat.pos_of_ne_zero h)
  rwa [size_zero] at hsize

/-- Only zero is nearest to zero. -/
theorem IsNearest.eq_zero {magnitude : Nat} (h : IsNearest 0 magnitude) : magnitude = 0 :=
  h.unique (size_zero ▸ isNearest_size 0)

/-! ## The space around a magnitude -/

/-- A magnitude is at most 2^53 times its distance from the one below. -/
theorem size_succ_le (magnitude : Nat) :
    size (magnitude + 1) ≤ 2 ^ 53 * (size (magnitude + 1) - size magnitude) := by
  have hunit : (0 : ℚ) < stepsPerUnit := Nat.cast_pos.2 (twoPow_pos 1074)
  have hsteps : steps magnitude + twoPow (magnitude / fractionUnit - 1) ≤
      2 ^ 53 * twoPow (magnitude / fractionUnit - 1) := by
    have hmod := Nat.mod_lt magnitude (show 0 < fractionUnit by decide)
    have hdouble : 2 * fractionUnit = 2 ^ 53 := by decide
    unfold steps
    split
    · next hfield =>
      have hsmall : magnitude < fractionUnit := by
        rcases Nat.div_eq_zero_iff.1 hfield with hzero | hless
        · exact absurd hzero (by decide)
        · exact hless
      rw [hfield, twoPow_zero]
      omega
    · rw [← Nat.succ_mul]
      exact Nat.mul_le_mul_right _ (by omega)
  have hsteps' : (steps (magnitude + 1) : ℚ) ≤
      2 ^ 53 * (steps (magnitude + 1) - steps magnitude) := by
    rw [steps_succ, Nat.cast_add, add_sub_cancel_left]
    exact_mod_cast hsteps
  rw [size, size, ← sub_div, ← mul_div_assoc]
  exact div_le_div_of_nonneg_right hsteps' hunit.le

/-- Other magnitudes keep a distance. -/
theorem size_le_of_ne {magnitude other : Nat} (h : other ≠ magnitude) :
    size magnitude ≤ 2 ^ 53 * |size other - size magnitude| := by
  rcases Nat.lt_or_gt_of_ne h with hless | hmore
  · obtain ⟨below, rfl⟩ := Nat.exists_eq_succ_of_ne_zero (Nat.ne_of_gt (Nat.zero_lt_of_lt hless))
    have hgap := size_succ_le below
    have hother := size_strictMono.monotone (Nat.le_of_lt_succ hless)
    have hsize := size_strictMono hless
    rw [abs_of_neg (by linarith)]
    linarith
  · have hgap := size_succ_le magnitude
    have hother := size_strictMono.monotone (Nat.succ_le_of_lt hmore)
    have hnext := size_strictMono (Nat.lt_succ_self magnitude)
    rw [abs_of_pos (by linarith)]
    linarith

/-- What is closer to a magnitude than a 2^54th of it is rounded to it. -/
theorem isNearest_of_close {exact : ℚ} {magnitude : Nat}
    (h : 2 ^ 54 * |exact - size magnitude| < size magnitude) : IsNearest exact magnitude := by
  have hnearer : ∀ other, other ≠ magnitude →
      |size magnitude - exact| < |size other - exact| := by
    intro other hne
    have hgap := size_le_of_ne hne
    have htriangle := abs_sub_le (size other) exact (size magnitude)
    rw [abs_sub_comm (size magnitude)]
    linarith
  constructor
  · intro other
    by_cases hne : other = magnitude
    · exact hne ▸ le_rfl
    · exact (hnearer other hne).le
  · intro other hne hequal
    exact absurd hequal.symm (hnearer other hne).ne

/-! ## The grid of a power of ten -/

theorem zpow_ten_pos (unit : Int) : (0 : ℚ) < 10 ^ unit := zpow_pos (by norm_num) unit

/-- The last point of a grid that is not above a magnitude. -/
def gridFloor (magnitude : Nat) (unit : Int) : Nat :=
  (inUnits (steps magnitude) stepsPerUnit unit).1 / (inUnits (steps magnitude) stepsPerUnit unit).2

/-- A magnitude in units of a power of ten. -/
theorem size_eq_inUnits (magnitude : Nat) (unit : Int) :
    0 < (inUnits (steps magnitude) stepsPerUnit unit).2 ∧
      size magnitude = ((inUnits (steps magnitude) stepsPerUnit unit).1 : ℚ) /
        (inUnits (steps magnitude) stepsPerUnit unit).2 * 10 ^ unit := by
  have hunit : 0 < stepsPerUnit := twoPow_pos 1074
  have hpower (count : Nat) : (10 : ℚ) ^ (count : Int) ≠ 0 := (zpow_ten_pos count).ne'
  unfold inUnits size
  generalize stepsPerUnit = perUnit at hunit ⊢
  split
  · next hscale =>
    obtain ⟨count, rfl⟩ := Int.eq_ofNat_of_zero_le hscale
    refine ⟨Nat.mul_pos hunit (tenPow_pos _), ?_⟩
    rw [Int.toNat_natCast, Nat.cast_mul, cast_tenPow, ← div_div, div_mul_cancel₀ _ (hpower count)]
  · next hscale =>
    obtain ⟨count, hcount⟩ := Int.eq_ofNat_of_zero_le (a := -unit) (by omega)
    obtain rfl : unit = -count := by omega
    refine ⟨hunit, ?_⟩
    rw [hcount, Int.toNat_natCast, Nat.cast_mul, cast_tenPow, zpow_neg, div_mul_eq_mul_div, mul_assoc,
      mul_inv_cancel₀ (hpower count), mul_one]

theorem gridFloor_mul_le (magnitude : Nat) (unit : Int) :
    gridFloor magnitude unit * 10 ^ unit ≤ size magnitude := by
  obtain ⟨hden, hsize⟩ := size_eq_inUnits magnitude unit
  rw [hsize]
  exact mul_le_mul_of_nonneg_right Nat.cast_div_le (zpow_ten_pos unit).le

theorem lt_gridFloor_succ_mul (magnitude : Nat) (unit : Int) :
    size magnitude < (gridFloor magnitude unit + 1) * 10 ^ unit := by
  obtain ⟨hden, hsize⟩ := size_eq_inUnits magnitude unit
  have hlt := Nat.lt_mul_div_succ (inUnits (steps magnitude) stepsPerUnit unit).1 hden
  rw [hsize]
  refine mul_lt_mul_of_pos_right ?_ (zpow_ten_pos unit)
  rw [div_lt_iff₀ (Nat.cast_pos.2 hden), mul_comm]
  exact_mod_cast hlt

/-- A point is the last one not above a magnitude if the next one is above it. -/
theorem gridFloor_eq {magnitude coefficient : Nat} {unit : Int}
    (hlow : coefficient * 10 ^ unit ≤ size magnitude)
    (hhigh : size magnitude < (coefficient + 1) * 10 ^ unit) :
    gridFloor magnitude unit = coefficient := by
  have hpower := zpow_ten_pos unit
  have hbelow := (gridFloor_mul_le magnitude unit).trans_lt hhigh
  have habove := hlow.trans_lt (lt_gridFloor_succ_mul magnitude unit)
  rw [mul_lt_mul_iff_left₀ hpower] at hbelow habove
  norm_cast at hbelow habove
  omega

/-- The division leaves over half a unit if the magnitude is in the middle of two points. -/
theorem rest_eq_iff (magnitude : Nat) (unit : Int) :
    2 * ((inUnits (steps magnitude) stepsPerUnit unit).1 %
        (inUnits (steps magnitude) stepsPerUnit unit).2) =
          (inUnits (steps magnitude) stepsPerUnit unit).2 ↔
      2 * size magnitude = (2 * gridFloor magnitude unit + 1) * 10 ^ unit := by
  obtain ⟨hden, hsize⟩ := size_eq_inUnits magnitude unit
  rw [hsize, gridFloor]
  generalize (inUnits (steps magnitude) stepsPerUnit unit).1 = num at *
  generalize (inUnits (steps magnitude) stepsPerUnit unit).2 = den at *
  have hpower := (zpow_ten_pos unit).ne'
  have hden' : (den : ℚ) ≠ 0 := Nat.cast_ne_zero.2 (Nat.ne_of_gt hden)
  have hsplit := Nat.div_add_mod num den
  rw [← mul_assoc, mul_left_inj' hpower, ← mul_div_assoc, div_eq_iff hden']
  norm_cast
  rw [Nat.add_mul, Nat.one_mul, Nat.mul_assoc, Nat.mul_comm (num / den)]
  omega

/-- If any point of a grid is rounded back, so is one of the two neighbours. -/
theorem isNearest_neighbour {magnitude coefficient : Nat} {unit : Int}
    (h : IsNearest (coefficient * 10 ^ unit) magnitude) :
    IsNearest (gridFloor magnitude unit * 10 ^ unit) magnitude ∨
      IsNearest ((gridFloor magnitude unit + 1 : Nat) * 10 ^ unit) magnitude := by
  have hpower := (zpow_ten_pos unit).le
  by_cases hle : coefficient ≤ gridFloor magnitude unit
  · have hle' : (coefficient : ℚ) ≤ gridFloor magnitude unit := by exact_mod_cast hle
    exact .inl (h.of_between (isNearest_size magnitude)
      (mul_le_mul_of_nonneg_right hle' hpower) (gridFloor_mul_le magnitude unit))
  · have hle' : ((gridFloor magnitude unit + 1 : Nat) : ℚ) ≤ coefficient := by
      exact_mod_cast Nat.lt_of_not_le hle
    have habove := lt_gridFloor_succ_mul magnitude unit
    refine .inr ((isNearest_size magnitude).of_between h ?_
      (mul_le_mul_of_nonneg_right hle' hpower))
    exact_mod_cast habove.le

/-- There is a hit on a grid if any of its points is rounded back. -/
theorem onGrid?_eq_none_iff {tie : TieRule} {magnitude : Nat} {unit : Int} :
    onGrid? tie magnitude unit = none ↔
      ¬ ∃ coefficient : Nat, IsNearest (coefficient * 10 ^ unit) magnitude := by
  have hneighbours : onGrid? tie magnitude unit = none ↔
      ¬ IsNearest (gridFloor magnitude unit * 10 ^ unit) magnitude ∧
        ¬ IsNearest ((gridFloor magnitude unit + 1 : Nat) * 10 ^ unit) magnitude := by
    rw [← nearestDecimal_eq_iff, ← nearestDecimal_eq_iff, onGrid?, gridFloor]
    simp only [roundsTo_eq]
    grind
  rw [hneighbours]
  constructor
  · rintro ⟨hlow, hhigh⟩ ⟨coefficient, hnearest⟩
    exact (isNearest_neighbour hnearest).elim hlow hhigh
  · exact fun hnone => ⟨fun hlow => hnone ⟨_, hlow⟩, fun hhigh => hnone ⟨_, hhigh⟩⟩

/-- A hit is one of the two neighbours. -/
theorem neighbour_of_onGrid? {tie : TieRule} {magnitude coefficient : Nat} {unit : Int}
    (h : onGrid? tie magnitude unit = some coefficient) :
    coefficient = gridFloor magnitude unit ∨ coefficient = gridFloor magnitude unit + 1 := by
  unfold onGrid? at h
  unfold gridFloor
  grind

/-- In the middle of two points that are both rounded back the rule decides. -/
theorem onGrid?_of_middle {tie : TieRule} {magnitude : Nat} {unit : Int}
    (hlow : IsNearest (gridFloor magnitude unit * 10 ^ unit) magnitude)
    (hhigh : IsNearest ((gridFloor magnitude unit + 1 : Nat) * 10 ^ unit) magnitude)
    (hmiddle : 2 * size magnitude = (2 * gridFloor magnitude unit + 1) * 10 ^ unit) :
    onGrid? tie magnitude unit = some (tie.choose (gridFloor magnitude unit)) := by
  rw [← nearestDecimal_eq_iff] at hlow hhigh
  rw [← rest_eq_iff] at hmiddle
  unfold gridFloor at *
  simp only [onGrid?, roundsTo_eq, hlow, hhigh, hmiddle, decide_true, Bool.and_self, if_true,
    Nat.lt_irrefl, if_false]
  cases tie <;> rfl

/-- In no other case the rule decides. -/
theorem onGrid?_of_not_middle {tie tie' : TieRule} {magnitude : Nat} {unit : Int}
    (h : IsNearest (gridFloor magnitude unit * 10 ^ unit) magnitude →
      IsNearest ((gridFloor magnitude unit + 1 : Nat) * 10 ^ unit) magnitude →
      2 * size magnitude ≠ (2 * gridFloor magnitude unit + 1) * 10 ^ unit) :
    onGrid? tie magnitude unit = onGrid? tie' magnitude unit := by
  rw [Ne, ← rest_eq_iff, ← nearestDecimal_eq_iff, ← nearestDecimal_eq_iff] at h
  unfold gridFloor at h
  simp only [onGrid?, roundsTo_eq]
  grind

end Binary64

end SqlSelect
