/-!
# Tables and columns

A table is known by its name alone and a column by its table and its own name. Names are
ordered by the bytes of their UTF-8 form, tables by name, and columns by table and then by
name. Nothing here says that a table exists: a name may be any text, the empty one included.
-/

namespace SqlSelect

/-- The bytes of a name in UTF-8. -/
def nameBytes (name : String) : List UInt8 := name.toByteArray.data.toList

/-- Names with the same bytes are the same name. -/
theorem nameBytes_inj {left right : String} : nameBytes left = nameBytes right ↔ left = right := by
  constructor
  · intro h
    exact String.toByteArray_inj.1 (ByteArray.ext (Array.toList_inj.1 h))
  · rintro rfl; rfl

/-- A relation, known by its name. -/
structure Table where
  name : String
deriving DecidableEq

/-- A column of a table. -/
structure Column where
  table : Table
  name : String
deriving DecidableEq

namespace Table

/-- The column of this table with the given name. -/
def column (table : Table) (name : String) : Column := ⟨table, name⟩

/-- Tables are ordered by the bytes of their names. -/
instance : Ord Table := ⟨fun left right => compare (nameBytes left.name) (nameBytes right.name)⟩

theorem compare_def (left right : Table) :
    compare left right = compare (nameBytes left.name) (nameBytes right.name) := rfl

/-- The order of the names is an order of the tables. -/
instance : Std.TransOrd Table where
  eq_swap := by
    intro left right
    rw [compare_def, compare_def]
    exact Std.OrientedCmp.eq_swap
  isLE_trans := by
    intro first second third
    rw [compare_def, compare_def, compare_def]
    exact Std.TransCmp.isLE_trans

/-- Two tables are the same for the order only if they are equal. -/
instance : Std.LawfulEqOrd Table where
  compare_self := by
    intro table
    rw [compare_def]
    exact Std.ReflCmp.compare_self
  eq_of_compare := by
    intro left right h
    rw [compare_def] at h
    cases left; cases right
    simpa [nameBytes_inj] using Std.LawfulEqCmp.eq_of_compare h

end Table

namespace Column

/-- Columns are ordered by table and then by the bytes of their names. -/
instance : Ord Column :=
  ⟨fun left right =>
    (compare left.table right.table).then (compare (nameBytes left.name) (nameBytes right.name))⟩

end Column

end SqlSelect
