import SqlSelect.Schema

/-!
# Sets of tables

A set of tables is kept as its members in strictly increasing order of their names, so two sets
with the same members are equal and a set is listed in one way only. The main statements say
what is a member of each construction and that membership determines the set.
-/

namespace SqlSelect

/-- Tables without repeats, listed in increasing order of their names. -/
structure TableSet where
  toList : List Table
  increasing : toList.Pairwise fun left right => compare left right = .lt
deriving DecidableEq

namespace TableSet

/-- The set without members. -/
def empty : TableSet := ⟨[], .nil⟩

instance : EmptyCollection TableSet := ⟨empty⟩

instance : Inhabited TableSet := ⟨empty⟩

instance : Membership Table TableSet := ⟨fun tables table => table ∈ tables.toList⟩

theorem mem_def {table : Table} {tables : TableSet} : table ∈ tables ↔ table ∈ tables.toList :=
  Iff.rfl

instance (table : Table) (tables : TableSet) : Decidable (table ∈ tables) :=
  inferInstanceAs (Decidable (table ∈ tables.toList))

/-- A table put at its place in an increasing list; one that is there already is not repeated. -/
def insertSorted (table : Table) : List Table → List Table
  | [] => [table]
  | first :: rest =>
    match compare table first with
    | .lt => table :: first :: rest
    | .eq => first :: rest
    | .gt => first :: insertSorted table rest

theorem mem_insertSorted {table other : Table} {tables : List Table} :
    other ∈ insertSorted table tables ↔ other = table ∨ other ∈ tables := by
  induction tables with
  | nil => simp [insertSorted]
  | cons first rest ih =>
    rw [insertSorted]
    split
    · simp
    · next h => simp [Std.LawfulEqCmp.eq_of_compare h]
    · simp only [List.mem_cons, ih, ← or_assoc, or_comm]

theorem insertSorted_increasing (table : Table) {tables : List Table}
    (h : tables.Pairwise fun left right => compare left right = .lt) :
    (insertSorted table tables).Pairwise fun left right => compare left right = .lt := by
  induction tables with
  | nil => simp [insertSorted]
  | cons first rest ih =>
    obtain ⟨hfirst, hrest⟩ := List.pairwise_cons.1 h
    rw [insertSorted]
    split
    · next hlt =>
      refine List.pairwise_cons.2 ⟨fun other hother => ?_, h⟩
      rcases List.mem_cons.1 hother with rfl | hother
      · exact hlt
      · exact Std.TransCmp.lt_trans hlt (hfirst other hother)
    · exact h
    · next hgt =>
      refine List.pairwise_cons.2 ⟨fun other hother => ?_, ih hrest⟩
      rcases mem_insertSorted.1 hother with rfl | hother
      · exact Std.OrientedCmp.lt_of_gt hgt
      · exact hfirst other hother

/-- The set with one more table. -/
def insert (table : Table) (tables : TableSet) : TableSet :=
  ⟨insertSorted table tables.toList, insertSorted_increasing table tables.increasing⟩

/-- The set of the tables of a list. -/
def ofList (tables : List Table) : TableSet := tables.foldr insert empty

/-- The tables of either set. -/
def union (left right : TableSet) : TableSet := left.toList.foldr insert right

instance : Union TableSet := ⟨union⟩

/-- The union of a list of sets. -/
def unions (sets : List TableSet) : TableSet := sets.foldr union empty

@[simp] theorem not_mem_empty (table : Table) : table ∉ (∅ : TableSet) := List.not_mem_nil

@[simp] theorem mem_insert {table other : Table} {tables : TableSet} :
    other ∈ tables.insert table ↔ other = table ∨ other ∈ tables := mem_insertSorted

@[simp] theorem mem_ofList {table : Table} {tables : List Table} :
    table ∈ ofList tables ↔ table ∈ tables := by
  induction tables with
  | nil => exact iff_of_false List.not_mem_nil List.not_mem_nil
  | cons first rest ih => rw [List.mem_cons, ← ih]; exact mem_insert

theorem mem_foldr_insert {table : Table} {left : List Table} {right : TableSet} :
    table ∈ left.foldr insert right ↔ table ∈ left ∨ table ∈ right := by
  induction left with
  | nil => simp
  | cons first rest ih => rw [List.foldr_cons, mem_insert, ih, List.mem_cons, or_assoc]

@[simp] theorem mem_union {table : Table} {left right : TableSet} :
    table ∈ left ∪ right ↔ table ∈ left ∨ table ∈ right := mem_foldr_insert

@[simp] theorem mem_unions {table : Table} {sets : List TableSet} :
    table ∈ unions sets ↔ ∃ tables ∈ sets, table ∈ tables := by
  induction sets with
  | nil => exact iff_of_false List.not_mem_nil (by simp)
  | cons first rest ih =>
    have split : table ∈ unions (first :: rest) ↔ table ∈ first ∨ table ∈ unions rest :=
      mem_foldr_insert
    rw [split, ih]
    simp

/-- Two increasing lists with the same members are the same list. -/
theorem eq_of_increasing {left right : List Table}
    (hleft : left.Pairwise fun a b => compare a b = .lt)
    (hright : right.Pairwise fun a b => compare a b = .lt)
    (h : ∀ table, table ∈ left ↔ table ∈ right) : left = right := by
  induction left generalizing right with
  | nil =>
    cases right with
    | nil => rfl
    | cons first rest => exact absurd ((h first).2 List.mem_cons_self) List.not_mem_nil
  | cons first rest ih =>
    cases right with
    | nil => exact absurd ((h first).1 List.mem_cons_self) List.not_mem_nil
    | cons other others =>
      obtain ⟨hfirst, hrest⟩ := List.pairwise_cons.1 hleft
      obtain ⟨hother, hothers⟩ := List.pairwise_cons.1 hright
      have irrefl : ∀ t : Table, compare t t ≠ .lt := fun t => by simp
      have asymm : ∀ {a b : Table}, compare a b = .lt → compare b a ≠ .lt := fun {a b} hab hba =>
        irrefl a (Std.TransCmp.lt_trans hab hba)
      have heads : first = other := by
        rcases List.mem_cons.1 ((h first).1 List.mem_cons_self) with e | m
        · exact e
        · rcases List.mem_cons.1 ((h other).2 List.mem_cons_self) with e | m'
          · exact e.symm
          · exact absurd (hother first m) (asymm (hfirst other m'))
      subst heads
      congr 1
      refine ih hrest hothers fun table => ⟨fun m => ?_, fun m => ?_⟩
      · rcases List.mem_cons.1 ((h table).1 (List.mem_cons_of_mem _ m)) with rfl | m'
        · exact absurd (hfirst table m) (irrefl table)
        · exact m'
      · rcases List.mem_cons.1 ((h table).2 (List.mem_cons_of_mem _ m)) with rfl | m'
        · exact absurd (hother table m) (irrefl table)
        · exact m'

/-- Sets with the same members are equal. -/
@[ext] theorem ext {left right : TableSet} (h : ∀ table, table ∈ left ↔ table ∈ right) :
    left = right := by
  obtain ⟨lefts, hleft⟩ := left
  obtain ⟨rights, hright⟩ := right
  have same : lefts = rights := eq_of_increasing hleft hright h
  subst same
  rfl

end TableSet

end SqlSelect
