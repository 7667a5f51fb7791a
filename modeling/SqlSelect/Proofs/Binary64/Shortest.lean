import SqlSelect.Proofs.Binary64.Grid

/-!
# The shortest digits of a real

A decimal that is rounded back leads to a hit on the grid of as many digits. So the search finds the
fewest digits, and never needs more than seventeen. Two equally near decimals with the fewest digits are
told apart by the rule of the caller; without them the rule makes no difference.
-/

namespace SqlSelect

namespace Binary64

/-! ## The first digit -/

/-- A quotient from one on lies between the powers of ten that the digits of its whole part give. -/
theorem length_ofNat_div {num den : Nat} (hden : 0 < den) (hle : den ≤ num) :
    ∃ less, (Digits.ofNat (num / den)).length = less + 1 ∧
      tenPow less * den ≤ num ∧ num < tenPow (less + 1) * den := by
  have hquotient : num / den ≠ 0 := Nat.ne_of_gt (Nat.div_pos hle hden)
  have hlow := Digits.tenPow_le hquotient
  have hhigh := Digits.lt_tenPow (num / den)
  obtain ⟨less, hlength⟩ := Nat.exists_eq_succ_of_ne_zero
    (Nat.ne_of_gt (List.length_pos_iff.2 (Digits.ofNat_ne_nil (num / den))))
  rw [hlength, Nat.succ_sub_one, Nat.le_div_iff_mul_le hden] at hlow
  rw [hlength, Nat.div_lt_iff_lt_mul hden] at hhigh
  exact ⟨less, hlength, hlow, hhigh⟩

/-- The leading exponent of a quotient is the power of ten at its first digit. -/
theorem leadingExponent_bounds {num den : Nat} (hnum : 0 < num) (hden : 0 < den) :
    (10 : ℚ) ^ leadingExponent num den ≤ num / den ∧
      (num / den : ℚ) < 10 ^ (leadingExponent num den + 1) := by
  have hnum' : (0 : ℚ) < num := Nat.cast_pos.2 hnum
  have hden' : (0 : ℚ) < den := Nat.cast_pos.2 hden
  unfold leadingExponent
  split
  · next hle =>
    obtain ⟨less, hlength, hlow, hhigh⟩ := length_ofNat_div hden hle
    have hexponent : ((less + 1 : Nat) : Int) - 1 = less := by omega
    have hexponent' : (less : Int) + 1 = (less + 1 : Nat) := by omega
    rw [hlength, hexponent, hexponent', ← cast_tenPow, ← cast_tenPow, le_div_iff₀ hden',
      div_lt_iff₀ hden']
    constructor
    · exact_mod_cast hlow
    · exact_mod_cast hhigh
  · next hless =>
    -- Below one the quotient is turned over.
    have hturned : num ≤ den - 1 := by omega
    obtain ⟨less, hlength, hlow, hhigh⟩ := length_ofNat_div hnum hturned
    have hexponent : -((less + 1 : Nat) : Int) + 1 = -(less : Int) := by omega
    rw [hlength, hexponent, zpow_neg, zpow_neg, ← cast_tenPow, ← cast_tenPow, div_lt_iff₀ hden',
      le_div_iff₀ hden', inv_mul_eq_div, inv_mul_eq_div,
      div_le_iff₀ (Nat.cast_pos.2 (tenPow_pos _)), lt_div_iff₀ (Nat.cast_pos.2 (tenPow_pos _))]
    have hlow' : num * tenPow less < den := by
      rw [Nat.mul_comm]
      omega
    have hhigh' : den ≤ num * tenPow (less + 1) := by
      rw [Nat.mul_comm]
      omega
    constructor
    · exact_mod_cast hhigh'
    · exact_mod_cast hlow'

/-- The power of ten of the grid on which a magnitude has a given number of digits. -/
def gridUnit (magnitude count : Nat) : Int :=
  leadingExponent (steps magnitude) stepsPerUnit - count + 1

/-- A magnitude lies between the powers of ten with as many zeros as digits on a grid, and one less. -/
theorem size_bounds {magnitude count : Nat} (h : magnitude ≠ 0) (hcount : 1 ≤ count) :
    tenPow (count - 1) * (10 : ℚ) ^ gridUnit magnitude count ≤ size magnitude ∧
      size magnitude < tenPow count * (10 : ℚ) ^ gridUnit magnitude count := by
  have hunit : 0 < stepsPerUnit := twoPow_pos 1074
  have hsteps : 0 < steps magnitude := by
    refine Nat.pos_of_ne_zero fun hzero => (size_pos h).ne' ?_
    rw [size, hzero, Nat.cast_zero, zero_div]
  obtain ⟨hlow, hhigh⟩ := leadingExponent_bounds hsteps hunit
  have hexponent : gridUnit magnitude count + (count - 1 : Nat) =
      leadingExponent (steps magnitude) stepsPerUnit := by
    rw [gridUnit]
    omega
  have hexponent' : gridUnit magnitude count + count =
      leadingExponent (steps magnitude) stepsPerUnit + 1 := by
    rw [gridUnit]
    omega
  rw [tenPow_mul_zpow, tenPow_mul_zpow, hexponent, hexponent']
  exact ⟨hlow, hhigh⟩

/-- The last point not above a magnitude has as many digits as the grid is made for. -/
theorem gridFloor_bounds {magnitude count : Nat} (h : magnitude ≠ 0) (hcount : 1 ≤ count) :
    tenPow (count - 1) ≤ gridFloor magnitude (gridUnit magnitude count) ∧
      gridFloor magnitude (gridUnit magnitude count) < tenPow count := by
  obtain ⟨hlow, hhigh⟩ := size_bounds h hcount
  generalize gridUnit magnitude count = unit at *
  have hpower := zpow_ten_pos unit
  have hlow' := hlow.trans_lt (lt_gridFloor_succ_mul magnitude unit)
  have hhigh' := (gridFloor_mul_le magnitude unit).trans_lt hhigh
  rw [mul_lt_mul_iff_left₀ hpower] at hlow' hhigh'
  norm_cast at hlow' hhigh'
  exact ⟨Nat.le_of_lt_succ hlow', hhigh'⟩

/-- A decimal next to a magnitude is on the grid of its own digits. -/
theorem unit_eq_gridUnit {magnitude coefficient : Nat} {unit : Int} (h : coefficient ≠ 0)
    (hlow : coefficient * 10 ^ unit ≤ size magnitude)
    (hhigh : size magnitude < (coefficient + 1) * 10 ^ unit) :
    unit = gridUnit magnitude (Digits.ofNat coefficient).length := by
  have hlength := List.length_pos_iff.2 (Digits.ofNat_ne_nil coefficient)
  have hpower := zpow_ten_pos unit
  have hmagnitude : magnitude ≠ 0 := by
    rintro rfl
    have hpositive : 0 < (coefficient : ℚ) * 10 ^ unit :=
      mul_pos (Nat.cast_pos.2 (Nat.pos_of_ne_zero h)) hpower
    rw [size_zero] at hlow
    linarith
  obtain ⟨hleading, hleading'⟩ := size_bounds hmagnitude hlength
  have hdigits : (tenPow ((Digits.ofNat coefficient).length - 1) : ℚ) ≤ coefficient := by
    exact_mod_cast Digits.tenPow_le h
  have hdigits' : (coefficient + 1 : ℚ) ≤ tenPow (Digits.ofNat coefficient).length := by
    exact_mod_cast Digits.lt_tenPow coefficient
  have hbelow := (mul_le_mul_of_nonneg_right hdigits hpower.le).trans_lt (hlow.trans_lt hleading')
  have habove := hleading.trans_lt (hhigh.trans_le (mul_le_mul_of_nonneg_right hdigits' hpower.le))
  rw [tenPow_mul_zpow, tenPow_mul_zpow, zpow_lt_zpow_iff_right₀ (by norm_num)] at hbelow habove
  omega

/-! ## The fewest digits -/

/-- Some point of the grid for a number of digits is rounded to a magnitude. -/
def FitsDigits (magnitude count : Nat) : Prop :=
  ∃ coefficient : Nat, IsNearest (coefficient * 10 ^ gridUnit magnitude count) magnitude

/-- A decimal that is rounded to a magnitude leads to a hit on the grid for its number of digits. -/
theorem fitsDigits_of_isNearest {magnitude other : Nat} {unit : Int} (h : magnitude ≠ 0)
    (hnearest : IsNearest (other * 10 ^ unit) magnitude) :
    FitsDigits magnitude (Digits.ofNat other).length := by
  have hother : other ≠ 0 := by
    rintro rfl
    rw [Nat.cast_zero, zero_mul] at hnearest
    exact h hnearest.eq_zero
  have hlength := List.length_pos_iff.2 (Digits.ofNat_ne_nil other)
  have hpower := (zpow_ten_pos unit).le
  have hdigits : (tenPow ((Digits.ofNat other).length - 1) : ℚ) ≤ other := by
    exact_mod_cast Digits.tenPow_le hother
  have hdigits' : (other : ℚ) ≤ tenPow (Digits.ofNat other).length := by
    exact_mod_cast (Digits.lt_tenPow other).le
  have hlow := mul_le_mul_of_nonneg_right hdigits hpower
  have hhigh := mul_le_mul_of_nonneg_right hdigits' hpower
  obtain ⟨hleading, hleading'⟩ := size_bounds h hlength
  rcases lt_trichotomy unit (gridUnit magnitude (Digits.ofNat other).length) with hless | hequal | hmore
  · -- The power of ten at the first digit of the magnitude lies between the two.
    refine ⟨tenPow ((Digits.ofNat other).length - 1),
      hnearest.of_between (isNearest_size magnitude) (hhigh.trans ?_) hleading⟩
    rw [tenPow_mul_zpow, tenPow_mul_zpow]
    exact zpow_le_zpow_right₀ (by norm_num) (by omega)
  · exact ⟨other, hequal ▸ hnearest⟩
  · refine ⟨tenPow (Digits.ofNat other).length,
      (isNearest_size magnitude).of_between hnearest hleading'.le (le_trans ?_ hlow)⟩
    rw [tenPow_mul_zpow, tenPow_mul_zpow]
    exact zpow_le_zpow_right₀ (by norm_num) (by omega)

/-- A hit on the grid for a number of digits is a decimal with no more digits. -/
theorem exists_isNearest_of_fitsDigits {magnitude count : Nat} (h : magnitude ≠ 0) (hcount : 1 ≤ count)
    (hfits : FitsDigits magnitude count) :
    ∃ (other : Nat) (unit : Int), (Digits.ofNat other).length ≤ count ∧
      IsNearest (other * 10 ^ unit) magnitude := by
  obtain ⟨coefficient, hnearest⟩ := hfits
  have hbound := (gridFloor_bounds h hcount).2
  rcases isNearest_neighbour hnearest with hlow | hhigh
  · exact ⟨_, _, Digits.length_ofNat_le hcount hbound, hlow⟩
  by_cases hnext : gridFloor magnitude (gridUnit magnitude count) + 1 < tenPow count
  · exact ⟨_, _, Digits.length_ofNat_le hcount hnext, hhigh⟩
  · -- The next point is a power of ten, which has one digit.
    have hpower : gridFloor magnitude (gridUnit magnitude count) + 1 = 1 * tenPow count := by omega
    rw [hpower, mul_tenPow_mul_zpow] at hhigh
    refine ⟨1, _, ?_, hhigh⟩
    rw [Digits.ofNat, dif_pos (by decide)]
    exact hcount

/-- Seventeen digits always suffice. -/
theorem fitsDigits_seventeen {magnitude : Nat} (h : magnitude ≠ 0) : FitsDigits magnitude 17 := by
  obtain ⟨hleading, -⟩ := size_bounds h (show 1 ≤ 17 by decide)
  unfold FitsDigits
  generalize gridUnit magnitude 17 = unit at *
  have hpower := zpow_ten_pos unit
  have hlow := gridFloor_mul_le magnitude unit
  have hhigh := lt_gridFloor_succ_mul magnitude unit
  have hcast : (tenPow (17 - 1) : ℚ) = 10 ^ 16 := by norm_num [tenPow]
  rw [hcast] at hleading
  -- The nearer of the two neighbours is at most half a unit away.
  by_cases hnear : 2 * size magnitude ≤ (2 * gridFloor magnitude unit + 1) * 10 ^ unit
  · refine ⟨gridFloor magnitude unit, isNearest_of_close ?_⟩
    rw [abs_of_nonpos (by linarith)]
    linarith
  · refine ⟨gridFloor magnitude unit + 1, isNearest_of_close ?_⟩
    rw [Nat.cast_add, Nat.cast_one, abs_of_nonneg (by linarith)]
    linarith

/-- The grid for the fewest digits. -/
structure IsFewest (magnitude count : Nat) : Prop where
  pos : 1 ≤ count
  fits : FitsDigits magnitude count
  least : ∀ fewer, 1 ≤ fewer → fewer < count → ¬ FitsDigits magnitude fewer

theorem exists_isFewest {magnitude : Nat} (h : magnitude ≠ 0) : ∃ count, IsFewest magnitude count := by
  classical
  have hfits : ∃ count, 1 ≤ count ∧ FitsDigits magnitude count :=
    ⟨17, by decide, fitsDigits_seventeen h⟩
  exact ⟨Nat.find hfits, (Nat.find_spec hfits).1, (Nat.find_spec hfits).2,
    fun fewer hpos hless hfewer => Nat.find_min hfits hless ⟨hpos, hfewer⟩⟩

theorem IsFewest.le_seventeen {magnitude count : Nat} (h : magnitude ≠ 0)
    (hfewest : IsFewest magnitude count) : count ≤ 17 :=
  Nat.le_of_not_lt fun hmore => hfewest.least 17 (by decide) hmore (fitsDigits_seventeen h)

/-- No decimal that is rounded to a magnitude has fewer digits. -/
theorem IsFewest.le_length {magnitude count other : Nat} {unit : Int} (h : magnitude ≠ 0)
    (hfewest : IsFewest magnitude count) (hnearest : IsNearest (other * 10 ^ unit) magnitude) :
    count ≤ (Digits.ofNat other).length :=
  Nat.le_of_not_lt fun hless =>
    hfewest.least _ (List.length_pos_iff.2 (Digits.ofNat_ne_nil other)) hless
      (fitsDigits_of_isNearest h hnearest)

/-! ## The search -/

/-- The search ends with the first hit. -/
theorem searchGrids_eq {tie : TieRule} {magnitude coefficient count tries place : Nat} {leading : Int}
    (hfrom : count ≤ place) (hto : place < count + tries)
    (hmiss : ∀ fewer, count ≤ fewer → fewer < place →
      onGrid? tie magnitude (leading - fewer + 1) = none)
    (hhit : onGrid? tie magnitude (leading - place + 1) = some coefficient) :
    searchGrids tie magnitude leading count tries = some (coefficient, leading - place + 1) := by
  induction tries generalizing count with
  | zero => omega
  | succ tries ih =>
    rw [searchGrids]
    rcases Nat.eq_or_lt_of_le hfrom with rfl | hless
    · rw [hhit]
    · rw [hmiss count le_rfl hless]
      exact ih hless (by omega) fun fewer hfewer => hmiss fewer (by omega)

/-- The shortest decimal is the hit on the grid for the fewest digits. -/
theorem IsFewest.shortest_eq {tie : TieRule} {magnitude count coefficient : Nat} (h : magnitude ≠ 0)
    (hfewest : IsFewest magnitude count)
    (hhit : onGrid? tie magnitude (gridUnit magnitude count) = some coefficient) :
    shortest tie magnitude = scientific coefficient (gridUnit magnitude count) := by
  have hsearch : searchGrids tie magnitude (leadingExponent (steps magnitude) stepsPerUnit) 1 17 =
      some (coefficient, gridUnit magnitude count) :=
    searchGrids_eq hfewest.pos (Nat.lt_succ_of_le (hfewest.le_seventeen h))
      (fun fewer hpos hless => onGrid?_eq_none_iff.2 (hfewest.least fewer hpos hless)) hhit
  unfold shortest
  dsimp only
  generalize exactDecimal magnitude = exact
  rw [hsearch, Option.getD_some]

/-- Whatever the rule, there is a hit on the grid for the fewest digits. -/
theorem IsFewest.exists_onGrid? {magnitude count : Nat} (hfewest : IsFewest magnitude count)
    (tie : TieRule) :
    ∃ coefficient, onGrid? tie magnitude (gridUnit magnitude count) = some coefficient := by
  refine Option.ne_none_iff_exists'.1 fun hnone => ?_
  rw [onGrid?_eq_none_iff] at hnone
  exact hnone hfewest.fits

/-- The digits that are written are as few as those of any decimal that is rounded to the
magnitude. -/
theorem length_shortest_le (tie : TieRule) {magnitude other : Nat} {unit : Int} (h : magnitude ≠ 0)
    (hnearest : IsNearest (other * 10 ^ unit) magnitude) :
    (shortest tie magnitude).digits.length ≤ (Digits.ofNat other).length := by
  obtain ⟨count, hfewest⟩ := exists_isFewest h
  obtain ⟨coefficient, hhit⟩ := hfewest.exists_onGrid? tie
  rw [hfewest.shortest_eq h hhit]
  refine le_trans ?_ (hfewest.le_length h hnearest)
  have hbound := (gridFloor_bounds h hfewest.pos).2
  have hle : coefficient ≤ tenPow count := by
    rcases neighbour_of_onGrid? hhit with rfl | rfl <;> omega
  exact Digits.length_stripTrailingZeros_le hfewest.pos hle

/-! ## Two shortest decimals -/

/-- A magnitude is halfway between two decimals that are rounded to it, and no decimal that is has fewer
digits than the lower one. -/
structure IsHalfway (magnitude low : Nat) (unit : Int) : Prop where
  middle : 2 * size magnitude = (2 * low + 1) * 10 ^ unit
  below : IsNearest (low * 10 ^ unit) magnitude
  above : IsNearest ((low + 1 : Nat) * 10 ^ unit) magnitude
  fewest : ∀ (other : Nat) (unit' : Int), IsNearest (other * 10 ^ unit') magnitude →
    (Digits.ofNat low).length ≤ (Digits.ofNat other).length

theorem IsHalfway.ne_zero {magnitude low : Nat} {unit : Int} (h : IsHalfway magnitude low unit) :
    magnitude ≠ 0 := by
  rintro rfl
  have hmiddle := h.middle
  have hpositive : (0 : ℚ) < (2 * low + 1) * 10 ^ unit :=
    mul_pos (by positivity) (zpow_ten_pos unit)
  rw [size_zero] at hmiddle
  linarith

/-- Two shortest decimals are told apart by the rule. -/
theorem IsHalfway.shortest_eq {magnitude low : Nat} {unit : Int} (h : IsHalfway magnitude low unit)
    (tie : TieRule) : shortest tie magnitude = scientific (tie.choose low) unit := by
  have hpower := zpow_ten_pos unit
  have hmiddle := h.middle
  have hbelow := h.below
  have habove := h.above
  have hmagnitude := h.ne_zero
  have hlow : low ≠ 0 := by
    rintro rfl
    rw [Nat.cast_zero, zero_mul] at hbelow
    exact hmagnitude hbelow.eq_zero
  have hsize : low * 10 ^ unit ≤ size magnitude := by linarith
  have hsize' : size magnitude < (low + 1) * 10 ^ unit := by linarith
  have hunit := unit_eq_gridUnit hlow hsize hsize'
  have hfloor := gridFloor_eq hsize hsize'
  have hfewest : IsFewest magnitude (Digits.ofNat low).length := by
    refine ⟨List.length_pos_iff.2 (Digits.ofNat_ne_nil low), ⟨low, hunit ▸ hbelow⟩, ?_⟩
    intro fewer hpos hless hfits
    obtain ⟨other, unit', hlength, hnearest⟩ := exists_isNearest_of_fitsDigits hmagnitude hpos hfits
    have hle := h.fewest other unit' hnearest
    omega
  have hhit : onGrid? tie magnitude unit = some (tie.choose low) := by
    rw [← hfloor] at hmiddle hbelow habove ⊢
    exact onGrid?_of_middle hbelow habove hmiddle
  rw [hunit] at hhit ⊢
  exact hfewest.shortest_eq hmagnitude hhit

/-- If there are no two shortest decimals, the rule makes no difference. -/
theorem shortest_eq_of_not_halfway {magnitude : Nat} (h : magnitude ≠ 0)
    (hnone : ∀ low unit, ¬ IsHalfway magnitude low unit) (tie tie' : TieRule) :
    shortest tie magnitude = shortest tie' magnitude := by
  obtain ⟨count, hfewest⟩ := exists_isFewest h
  obtain ⟨coefficient, hhit⟩ := hfewest.exists_onGrid? tie
  have hsame : onGrid? tie magnitude (gridUnit magnitude count) =
      onGrid? tie' magnitude (gridUnit magnitude count) := by
    refine onGrid?_of_not_middle fun hbelow habove hmiddle => ?_
    refine hnone _ _ ⟨hmiddle, hbelow, habove, fun other unit' hnearest => ?_⟩
    exact (Digits.length_ofNat_le hfewest.pos (gridFloor_bounds h hfewest.pos).2).trans
      (hfewest.le_length h hnearest)
  rw [hfewest.shortest_eq h hhit, hfewest.shortest_eq h (hsame ▸ hhit)]

end Binary64

end SqlSelect
