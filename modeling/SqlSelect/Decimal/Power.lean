/-!
# Powers of two and ten

The two sequences of powers that decimals and binary words are measured by.
-/

namespace SqlSelect

/-- A power of two. -/
def twoPow (exponent : Nat) : Nat := Nat.pow 2 exponent

/-- A power of ten. -/
def tenPow (exponent : Nat) : Nat := Nat.pow 10 exponent

@[simp] theorem twoPow_zero : twoPow 0 = 1 := rfl

@[simp] theorem tenPow_zero : tenPow 0 = 1 := rfl

theorem twoPow_succ (exponent : Nat) : twoPow (exponent + 1) = 2 * twoPow exponent :=
  Nat.mul_comm _ _

theorem tenPow_succ (exponent : Nat) : tenPow (exponent + 1) = 10 * tenPow exponent :=
  Nat.mul_comm _ _

theorem twoPow_pos (exponent : Nat) : 0 < twoPow exponent := by
  induction exponent with
  | zero => decide
  | succ exponent ih => rw [twoPow_succ]; omega

theorem tenPow_pos (exponent : Nat) : 0 < tenPow exponent := by
  induction exponent with
  | zero => decide
  | succ exponent ih => rw [tenPow_succ]; omega

theorem twoPow_add (left right : Nat) : twoPow (left + right) = twoPow left * twoPow right := by
  induction left with
  | zero => simp
  | succ left ih => rw [Nat.add_right_comm, twoPow_succ, ih, twoPow_succ, Nat.mul_assoc]

theorem tenPow_add (left right : Nat) : tenPow (left + right) = tenPow left * tenPow right := by
  induction left with
  | zero => simp
  | succ left ih => rw [Nat.add_right_comm, tenPow_succ, ih, tenPow_succ, Nat.mul_assoc]

end SqlSelect
