import SqlSelect.Binary64.Basic
import SqlSelect.Calendar.Timestamp

/-!
# Literals

The values that a statement can hold. Two of them are the same if they are of one variant and hold the
same part. Reals are compared by their bits, so a NaN is the same as itself and zeros of different sign
differ.
-/

namespace SqlSelect

/-- A value in a statement. -/
inductive Literal where
  | null
  | integer (number : Int64)
  | real (x : Binary64)
  | text (content : String)
  | date (moment : Timestamp)
  | blob (bytes : List UInt8)

namespace Literal

/-- Truth values are the integers one and zero. -/
def ofBool (b : Bool) : Literal := .integer (if b then 1 else 0)

/-- Short integers are integers. -/
def ofInt32 (number : Int32) : Literal := .integer number.toInt64

/-- A missing value is NULL. -/
def ofOption : Option Literal → Literal
  | none => .null
  | some literal => literal

/-- Whether the literal is NULL itself; a NaN is not. -/
def isNull : Literal → Bool
  | .null => true
  | _ => false

/-- Every NaN as the one that reading produces. -/
def canonical : Literal → Literal
  | .real x => .real x.canonical
  | other => other

/-- Whether two literals are the same. -/
def same : Literal → Literal → Bool
  | .null, .null => true
  | .integer number, .integer number' => decide (number = number')
  | .real x, .real x' => decide (x.bits = x'.bits)
  | .text content, .text content' => decide (content = content')
  | .date moment, .date moment' => decide (moment = moment')
  | .blob bytes, .blob bytes' => decide (bytes = bytes')
  | _, _ => false

/-- Literals that are the same are equal. -/
theorem same_iff (left right : Literal) : left.same right = true ↔ left = right := by
  have hbits (x x' : Binary64) : x.bits = x'.bits ↔ x = x' := by
    rw [← Binary64.mk.injEq]
  cases left <;> cases right <;> simp [same, hbits]

instance : DecidableEq Literal := fun left right => decidable_of_iff _ (same_iff left right)

end Literal

end SqlSelect
