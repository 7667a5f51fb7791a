import SqlSelect.Proofs.Binary64.Rounding
import SqlSelect.Proofs.Decimal.Digit

/-!
# Reading decimals

Reading a decimal does no rounding for powers of ten outside the range of the reals. That changes no
result: what it leaves out would be rounded to zero or beyond the largest finite real.
-/

namespace SqlSelect

namespace Binary64

/-- The magnitude nearest to `coefficient * 10 ^ scale`. -/
def nearestDecimal (coefficient : Nat) (scale : Int) : Nat :=
  if 0 ≤ scale then nearestMagnitude (coefficient * tenPow scale.toNat) 1
  else nearestMagnitude coefficient (tenPow (-scale).toNat)

/-- Nothing is nearest to zero but zero. -/
theorem nearestDecimal_zero (scale : Int) : nearestDecimal 0 scale = 0 := by
  unfold nearestDecimal
  split
  · exact nearestMagnitude_eq_zero (by simp)
  · have hpos := tenPow_pos (-scale).toNat
    exact nearestMagnitude_eq_zero (by simpa using hpos)

/-- A decimal that is rounded to a positive magnitude is not below all of them. -/
theorem le_top_of_nearestDecimal {coefficient : Nat} {scale : Int}
    (h : nearestDecimal coefficient scale ≠ 0) :
    -330 ≤ scale + (Digits.ofNat coefficient).length := by
  refine Int.not_lt.1 fun htop => h ?_
  have hlt := Digits.lt_tenPow coefficient
  generalize (Digits.ofNat coefficient).length = length at htop hlt
  obtain ⟨more, hscale⟩ : ∃ more : Nat, (-scale).toNat = 331 + length + more :=
    ⟨(-scale).toNat - (331 + length), by omega⟩
  have hsteps : 2 * stepsPerUnit < tenPow 331 := by decide +kernel
  have hmore := tenPow_pos more
  rw [nearestDecimal, if_neg (by omega)]
  apply nearestMagnitude_eq_zero
  calc 2 * (coefficient * stepsPerUnit) = coefficient * (2 * stepsPerUnit) := by
        rw [Nat.mul_left_comm]
    _ ≤ tenPow length * (2 * stepsPerUnit) := Nat.mul_le_mul_right _ (Nat.le_of_lt hlt)
    _ < tenPow length * tenPow 331 := Nat.mul_lt_mul_of_pos_left hsteps (tenPow_pos length)
    _ ≤ tenPow length * tenPow 331 * tenPow more := Nat.le_mul_of_pos_right _ hmore
    _ = tenPow (-scale).toNat := by
        rw [hscale, tenPow_add, tenPow_add, Nat.mul_comm (tenPow length)]

/-- A decimal that is rounded to a finite magnitude is not above all of them. -/
theorem top_le_of_nearestDecimal {coefficient : Nat} (hne : coefficient ≠ 0) {scale : Int}
    (h : nearestDecimal coefficient scale < infiniteMagnitude) :
    scale + (Digits.ofNat coefficient).length ≤ 310 := by
  refine Int.not_lt.1 fun htop => Nat.not_le.2 h ?_
  have hle := Digits.tenPow_le hne
  generalize (Digits.ofNat coefficient).length = length at htop hle
  have hlarge : twoPow 1024 ≤ tenPow 310 := by decide +kernel
  unfold nearestDecimal
  split
  · next hscale =>
    obtain ⟨more, hmore⟩ : ∃ more : Nat, length - 1 + scale.toNat = 310 + more :=
      ⟨length - 1 + scale.toNat - 310, by omega⟩
    refine infiniteMagnitude_le_nearestMagnitude Nat.one_pos ?_
    calc twoPow 1024 * 1 ≤ tenPow 310 * tenPow more := by
          rw [Nat.mul_one]
          exact Nat.le_trans hlarge (Nat.le_mul_of_pos_right _ (tenPow_pos more))
      _ = tenPow (length - 1) * tenPow scale.toNat := by rw [← tenPow_add, ← tenPow_add, hmore]
      _ ≤ coefficient * tenPow scale.toNat := Nat.mul_le_mul_right _ hle
  · next hscale =>
    obtain ⟨more, hmore⟩ : ∃ more : Nat, length - 1 = 310 + (-scale).toNat + more :=
      ⟨length - 1 - (310 + (-scale).toNat), by omega⟩
    refine infiniteMagnitude_le_nearestMagnitude (tenPow_pos _) ?_
    calc twoPow 1024 * tenPow (-scale).toNat ≤ tenPow 310 * tenPow (-scale).toNat :=
          Nat.mul_le_mul_right _ hlarge
      _ ≤ tenPow 310 * tenPow (-scale).toNat * tenPow more :=
          Nat.le_mul_of_pos_right _ (tenPow_pos more)
      _ = tenPow (length - 1) := by rw [hmore, tenPow_add, tenPow_add]
      _ ≤ coefficient := hle

/-- The limits on the power of ten change no result. -/
theorem ofDecimal?_eq (negative : Bool) (coefficient : Nat) (scale : Int) :
    ofDecimal? negative coefficient scale =
      if nearestDecimal coefficient scale < infiniteMagnitude then
        some (ofParts negative (nearestDecimal coefficient scale))
      else none := by
  unfold ofDecimal?
  dsimp only
  split
  · next hsmall =>
    have hzero : nearestDecimal coefficient scale = 0 := by
      rcases hsmall with rfl | htop
      · exact nearestDecimal_zero scale
      · exact Decidable.byContradiction fun hne =>
          absurd htop (Int.not_lt.2 (le_top_of_nearestDecimal hne))
    rw [hzero, if_pos (by decide)]
  · next hlarge =>
    rw [not_or] at hlarge
    split
    · next htop =>
      exact (if_neg fun hfinite =>
        absurd htop (Int.not_lt.2 (top_le_of_nearestDecimal hlarge.1 hfinite))).symm
    · unfold nearestDecimal
      split <;> rfl

/-- A finite real is neither a NaN nor an infinity, and every other one is. -/
theorem isFinite_iff {x : Binary64} : x.isFinite = true ↔ x.isNaN = false ∧ x.isInfinite = false := by
  simp only [isFinite, isNaN, isInfinite, decide_eq_true_eq, decide_eq_false_iff_not]
  omega

/-- A real below the infinite magnitude is finite, whatever its sign. -/
theorem isFinite_ofParts (negative : Bool) {magnitude : Nat} (h : magnitude < infiniteMagnitude) :
    (ofParts negative magnitude).isFinite = true := by
  have hword : magnitude < signUnit := Nat.lt_trans h (by decide)
  rw [isFinite, magnitude_ofParts negative hword]
  exact decide_eq_true h

/-- A decimal is read as a finite real or not at all. -/
theorem isFinite_of_ofDecimal? {negative : Bool} {coefficient : Nat} {scale : Int} {x : Binary64}
    (h : ofDecimal? negative coefficient scale = some x) : x.isFinite = true := by
  rw [ofDecimal?_eq] at h
  split at h
  · next hfinite =>
    obtain rfl := Option.some.inj h
    exact isFinite_ofParts negative hfinite
  · cases h

end Binary64

end SqlSelect
