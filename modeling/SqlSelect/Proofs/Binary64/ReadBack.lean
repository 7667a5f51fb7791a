import SqlSelect.Binary64.Notation
import SqlSelect.Proofs.Binary64.Nearest

/-!
# Reading a written real back

The digits that are chosen for a real are rounded back to it, wherever the point is put and whether
or not there is an exponent: each notation keeps the size of the digits. So every notation of a finite
real is read as that real, the sign of a zero included. It does not matter here which digits the
search finds: each hit of it is checked, and the exact decimal stands behind it.
-/

namespace SqlSelect

/-- The number that digits with a power of ten stand for. -/
def ScientificDecimal.size (decimal : ScientificDecimal) : ℚ :=
  Digits.value decimal.digits * 10 ^ (decimal.exponent + 1 - decimal.digits.length)

/-- The number that a numeral stands for, without its sign. -/
def Numeral.size (numeral : Numeral) : ℚ := numeral.coefficient * 10 ^ numeral.scale

theorem cast_tenPow (count : Nat) : ((tenPow count : Nat) : ℚ) = 10 ^ (count : Int) := by
  simp [tenPow]

/-- Powers of ten are multiplied by adding the exponents. -/
theorem tenPow_mul_zpow (count : Nat) (scale : Int) :
    ((tenPow count : Nat) : ℚ) * 10 ^ scale = 10 ^ (scale + count) := by
  rw [cast_tenPow, ← zpow_add₀ (by norm_num), add_comm]

/-- Zeros at the right end of a coefficient can be moved to the power of ten. -/
theorem mul_tenPow_mul_zpow (coefficient count : Nat) (scale : Int) :
    ((coefficient * tenPow count : Nat) : ℚ) * 10 ^ scale = coefficient * 10 ^ (scale + count) := by
  rw [Nat.cast_mul, mul_assoc, tenPow_mul_zpow]

namespace Binary64

/-- The check of a grid point asks for its nearest magnitude. -/
theorem roundsTo_eq (magnitude coefficient : Nat) (unit : Int) :
    roundsTo magnitude coefficient unit = decide (nearestDecimal coefficient unit = magnitude) := by
  unfold roundsTo nearestDecimal
  split <;> rfl

/-- A grid point that is chosen is rounded back. -/
theorem nearestDecimal_of_onGrid? {tie : TieRule} {magnitude coefficient : Nat} {unit : Int}
    (h : onGrid? tie magnitude unit = some coefficient) :
    nearestDecimal coefficient unit = magnitude := by
  -- Whichever neighbour is chosen, the check of that neighbour has succeeded.
  have hfits : roundsTo magnitude coefficient unit = true := by
    unfold onGrid? at h
    dsimp only at h
    grind
  rw [roundsTo_eq] at hfits
  exact of_decide_eq_true hfits

/-- What the search finds is rounded back. -/
theorem nearestDecimal_of_searchGrids {tie : TieRule} {magnitude : Nat} {leading : Int}
    {count tries : Nat} {found : Nat × Int}
    (h : searchGrids tie magnitude leading count tries = some found) :
    nearestDecimal found.1 found.2 = magnitude := by
  induction tries generalizing count with
  | zero => exact absurd h (by simp [searchGrids])
  | succ tries ih =>
    unfold searchGrids at h
    dsimp only at h
    split at h
    · next hgrid =>
      obtain rfl := Option.some.inj h
      exact nearestDecimal_of_onGrid? hgrid
    · exact ih h

/-- The exact decimal has the size of the magnitude. -/
theorem size_exactDecimal (magnitude : Nat) :
    ((exactDecimal magnitude).1 : ℚ) * 10 ^ (exactDecimal magnitude).2 = size magnitude := by
  have hwhole : tenPow 1074 = tenPow 1074 / stepsPerUnit * stepsPerUnit := by decide +kernel
  have hscale : (exactDecimal magnitude).2 = -((1074 : Nat) : Int) := rfl
  have hcoefficient : (exactDecimal magnitude).1 = steps magnitude * (tenPow 1074 / stepsPerUnit) := rfl
  have htenPow : tenPow 1074 ≠ 0 := Nat.ne_of_gt (tenPow_pos 1074)
  rw [hscale, zpow_neg, ← cast_tenPow, hcoefficient, size]
  generalize tenPow 1074 = ten at hwhole htenPow ⊢
  generalize ten / stepsPerUnit = factor at hwhole ⊢
  obtain ⟨hfactor, hunit⟩ := Nat.mul_ne_zero_iff.1 (hwhole ▸ htenPow)
  have hfactor' : (factor : ℚ) ≠ 0 := Nat.cast_ne_zero.2 hfactor
  rw [hwhole, Nat.cast_mul, Nat.cast_mul, ← div_eq_mul_inv, mul_comm (factor : ℚ),
    mul_div_mul_right _ _ hfactor']

/-- Writing a coefficient in digits without trailing zeros moves those zeros to the exponent. -/
theorem size_scientific (coefficient : Nat) (unit : Int) :
    (scientific coefficient unit).size = coefficient * 10 ^ unit := by
  obtain ⟨count, hcount⟩ := Digits.stripTrailingZeros_append (Digits.ofNat coefficient)
  have hvalue : coefficient =
      Digits.value (Digits.stripTrailingZeros (Digits.ofNat coefficient)) * tenPow count := by
    rw [← Digits.value_append_zeros, ← hcount, Digits.value_ofNat]
  have hlength : (Digits.ofNat coefficient).length =
      (Digits.stripTrailingZeros (Digits.ofNat coefficient)).length + count := by
    have hlengths := congrArg List.length hcount
    rwa [List.length_append, List.length_replicate] at hlengths
  have hscale : unit + ((Digits.ofNat coefficient).length - 1 : Int) + 1 -
      (Digits.stripTrailingZeros (Digits.ofNat coefficient)).length = unit + count := by
    omega
  simp only [ScientificDecimal.size, scientific, hscale]
  rw [← mul_tenPow_mul_zpow, ← hvalue]

/-- The digits of a positive coefficient start with one that is not zero. -/
theorem digits_scientific {coefficient : Nat} (h : coefficient ≠ 0) (unit : Int) :
    ∃ first rest, (scientific coefficient unit).digits = first :: rest ∧ first ≠ Digit.zero := by
  have hhead := Digits.head_ofNat_ne_zero h
  have hvalue := Digits.value_ofNat coefficient
  obtain ⟨count, hcount⟩ := Digits.stripTrailingZeros_append (Digits.ofNat coefficient)
  simp only [scientific]
  cases hdigits : Digits.stripTrailingZeros (Digits.ofNat coefficient) with
  | nil =>
    rw [hcount, hdigits, List.nil_append, Digits.value_replicate_zero] at hvalue
    exact absurd hvalue.symm h
  | cons first rest =>
    refine ⟨first, rest, rfl, fun hzero => hhead ?_⟩
    rw [hcount, hdigits, hzero]
    rfl

/-- The shortest decimal comes from a coefficient that is rounded back. -/
theorem shortest_eq (tie : TieRule) (magnitude : Nat) :
    ∃ coefficient unit, shortest tie magnitude = scientific coefficient unit ∧
      nearestDecimal coefficient unit = magnitude := by
  unfold shortest
  dsimp only
  cases hfound : searchGrids tie magnitude
      (leadingExponent (steps magnitude) stepsPerUnit) 1 17 with
  | none =>
    refine ⟨_, _, rfl, nearestDecimal_eq_iff.2 ?_⟩
    rw [Option.getD_none, size_exactDecimal]
    exact isNearest_size magnitude
  | some found => exact ⟨_, _, rfl, nearestDecimal_of_searchGrids hfound⟩

/-- The shortest digits are rounded back. -/
theorem isNearest_shortest (tie : TieRule) (magnitude : Nat) :
    IsNearest (shortest tie magnitude).size magnitude := by
  obtain ⟨coefficient, unit, hshortest, hnearest⟩ := shortest_eq tie magnitude
  rw [hshortest, size_scientific]
  exact nearestDecimal_eq_iff.1 hnearest

/-- The shortest digits start with one that is not zero. -/
theorem digits_shortest (tie : TieRule) {magnitude : Nat} (h : magnitude ≠ 0) :
    ∃ first rest, (shortest tie magnitude).digits = first :: rest ∧ first ≠ Digit.zero := by
  obtain ⟨coefficient, unit, hshortest, hnearest⟩ := shortest_eq tie magnitude
  rw [hshortest]
  apply digits_scientific
  intro hnone
  rw [hnone] at hnearest
  exact h (hnearest.symm.trans (nearestDecimal_zero unit))

end Binary64

namespace DecimalNotation

/-- With the point at its place a decimal keeps its size. -/
theorem size_positional (negative : Bool) (decimal : ScientificDecimal) :
    (positional negative decimal).size = decimal.size := by
  unfold positional Numeral.size Numeral.coefficient Numeral.scale ScientificDecimal.size
  split
  · next hneg =>
    have hscale : (0 : Int) - (decimal.exponent.natAbs - 1 + decimal.digits.length : Nat) =
        decimal.exponent + 1 - decimal.digits.length := by
      omega
    have hzeros : [Digit.zero] ++
        (List.replicate (decimal.exponent.natAbs - 1) Digit.zero ++ decimal.digits) =
          List.replicate (decimal.exponent.natAbs - 1 + 1) Digit.zero ++ decimal.digits := by
      rw [List.replicate_succ]
      rfl
    simp only [Option.getD_none, List.length_append, List.length_replicate, hscale]
    rw [hzeros, Digits.value_zeros_append]
  · next hneg =>
    generalize hplaces : decimal.exponent.toNat + 1 = places
    dsimp only
    by_cases hshort : decimal.digits.length ≤ places
    · -- Zeros are filled in up to the point, and one more after it.
      have hscale : (0 : Int) - (1 : Nat) + (places - decimal.digits.length + 1 : Nat) =
          decimal.exponent + 1 - decimal.digits.length := by
        omega
      have hzeros : decimal.digits ++
          List.replicate (places - decimal.digits.length) Digit.zero ++ [Digit.zero] =
            decimal.digits ++
              List.replicate (places - decimal.digits.length + 1) Digit.zero := by
        rw [List.append_assoc, List.replicate_succ']
      rw [List.drop_eq_nil_of_le hshort, if_pos rfl, List.take_of_length_le hshort, hzeros,
        Digits.value_append_zeros, mul_tenPow_mul_zpow, ← hscale]
      rfl
    · have hdrop : decimal.digits.drop places ≠ [] := by
        intro hnil
        exact hshort (List.drop_eq_nil_iff.1 hnil)
      have hfill : places - decimal.digits.length = 0 := by omega
      have hscale : (0 : Int) - (decimal.digits.length - places : Nat) =
          decimal.exponent + 1 - decimal.digits.length := by
        omega
      rw [if_neg hdrop, hfill, List.replicate_zero, List.append_nil, List.take_append_drop,
        Option.getD_none, List.length_drop, hscale]

/-- With an exponent a decimal keeps its size. -/
theorem size_exponential (negative : Bool) {decimal : ScientificDecimal}
    (h : decimal.digits ≠ []) : (exponential negative decimal).size = decimal.size := by
  have hpos := List.length_pos_iff.2 h
  have hscale : decimal.exponent - (decimal.digits.length - 1 : Nat) =
      decimal.exponent + 1 - decimal.digits.length := by
    omega
  simp only [exponential, Numeral.size, Numeral.coefficient, Numeral.scale, ScientificDecimal.size,
    List.take_append_drop, Option.getD_some, List.length_drop, hscale]

/-- In every notation a real has the size of its shortest digits. -/
theorem size_numeral (style : DecimalNotation) {x : Binary64} (h : x.magnitude ≠ 0) :
    (style.numeral x).size = (Binary64.shortest style.tie x.magnitude).size := by
  rw [numeral, if_neg h]
  dsimp only
  split
  · exact size_positional x.negative _
  · obtain ⟨first, rest, hdigits, -⟩ := Binary64.digits_shortest style.tie h
    apply size_exponential
    rw [hdigits]
    exact List.cons_ne_nil first rest

/-- A zero is written as zero. -/
theorem size_numeral_zero (style : DecimalNotation) {x : Binary64} (h : x.magnitude = 0) :
    (style.numeral x).size = 0 := by
  have hcoefficient : Digits.value ([Digit.zero] ++ [Digit.zero]) = 0 := by decide
  rw [numeral, if_pos h, Numeral.size, Numeral.coefficient, hcoefficient, Nat.cast_zero, zero_mul]

/-- The sign of a numeral is that of the real. -/
theorem negative_numeral (style : DecimalNotation) (x : Binary64) :
    (style.numeral x).negative = x.negative := by
  unfold numeral positional exponential
  grind

/-- With the point at its place there is a digit before it, which is zero only if it is the only
one there, and a digit behind it. -/
theorem digits_positional (negative : Bool) {decimal : ScientificDecimal} {first : Digit}
    {rest : List Digit} (hdigits : decimal.digits = first :: rest) (hne : first ≠ Digit.zero) :
    (∃ digit more, (positional negative decimal).whole = digit :: more ∧
      (digit = Digit.zero → more = [])) ∧ (positional negative decimal).fraction ≠ [] := by
  unfold positional
  split
  · refine ⟨⟨Digit.zero, [], rfl, fun _ => rfl⟩, ?_⟩
    simp [hdigits]
  · refine ⟨?_, ?_⟩
    · dsimp only
      rw [hdigits, List.take_succ_cons, List.cons_append]
      exact ⟨first, _, rfl, fun hzero => absurd hzero hne⟩
    · dsimp only
      split
      · exact List.cons_ne_nil _ _
      · assumption

/-- There is a digit before the point, and it is zero only if it is the only one there. -/
theorem whole_numeral (style : DecimalNotation) (x : Binary64) :
    ∃ first rest, (style.numeral x).whole = first :: rest ∧ (first = Digit.zero → rest = []) := by
  unfold numeral
  split
  · exact ⟨Digit.zero, [], rfl, fun _ => rfl⟩
  · next hzero =>
    obtain ⟨first, rest, hdigits, hne⟩ := Binary64.digits_shortest style.tie hzero
    dsimp only
    split
    · exact (digits_positional x.negative hdigits hne).1
    · exact ⟨first, [], by rw [exponential, hdigits]; rfl, fun _ => rfl⟩

/-- A real has a fraction or an exponent. -/
theorem fraction_or_exponent_numeral (style : DecimalNotation) (x : Binary64) :
    (style.numeral x).fraction ≠ [] ∨ (style.numeral x).exponent ≠ none := by
  unfold numeral
  split
  · exact .inl (List.cons_ne_nil _ _)
  · next hzero =>
    obtain ⟨first, rest, hdigits, hne⟩ := Binary64.digits_shortest style.tie hzero
    dsimp only
    split
    · exact .inl (digits_positional x.negative hdigits hne).2
    · exact .inr (Option.some_ne_none _)

/-- A real is not written like an integer. -/
theorem toInt?_numeral (style : DecimalNotation) (x : Binary64) :
    (style.numeral x).toInt? = none := by
  unfold Numeral.toInt?
  apply if_neg
  rintro ⟨hfraction, hexponent⟩
  exact (fraction_or_exponent_numeral style x).elim (absurd hfraction) (absurd hexponent)

/-- A numeral of a real is rounded to its magnitude. -/
theorem isNearest_numeral (style : DecimalNotation) (x : Binary64) :
    Binary64.IsNearest (style.numeral x).size x.magnitude := by
  by_cases hzero : x.magnitude = 0
  · rw [size_numeral_zero style hzero, hzero, ← Binary64.size_zero]
    exact Binary64.isNearest_size 0
  · rw [size_numeral style hzero]
    exact Binary64.isNearest_shortest style.tie x.magnitude

/-- The numeral of a finite real is read as that real. -/
theorem toBinary64?_numeral (style : DecimalNotation) {x : Binary64} (h : x.isFinite) :
    (style.numeral x).toBinary64? = some x :=
  Numeral.toBinary64?_eq_some_iff.2 ⟨h, (negative_numeral style x).symm, isNearest_numeral style x⟩

end DecimalNotation

end SqlSelect
