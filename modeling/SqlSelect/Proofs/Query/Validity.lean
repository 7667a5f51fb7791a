import SqlSelect.Proofs.Tree.Occurrence
import SqlSelect.Query.Validity

/-!
# When a statement is valid

A statement is valid exactly if it selects something and every table that it sorts by is one of its
own. So the verdict depends on whether anything is selected, on the tables of the statement, and on
the tables of each sort rule; the fault that is reported depends on nothing else either. That nothing is
selected is reported before anything else, and of the tables that are missing the one whose name is
least among those of the first rule that misses any.
-/

namespace SqlSelect.Query

/-- A rule misses no table exactly if all of its tables are in the set. -/
theorem missingTable?_eq_none_iff {tables : TableSet} {rule : SortRule} :
    missingTable? tables rule = none ↔ ∀ table ∈ rule.tables, table ∈ tables := by
  simp [missingTable?, TableSet.mem_def]

/-- A statement is valid exactly if it selects something and sorts only by its own tables. -/
theorem validate_eq_ok_iff {query : Query} :
    query.validate = .ok () ↔
      query.results ≠ [] ∧ ∀ rule ∈ query.order, ∀ table ∈ rule.tables, table ∈ query.tables := by
  simp only [← missingTable?_eq_none_iff, ← List.findSome?_eq_none_iff]
  unfold validate
  split
  · next hnil => simp [hnil]
  · next hne =>
    split
    · next table hfound => simp [hfound]
    · next hnone => simp [hne, hnone]

/-- Statements with the same tables whose sort rules have the same tables, and which both or neither
select something, have the same verdict. -/
theorem validate_congr {left right : Query} (hresults : left.results = [] ↔ right.results = [])
    (htables : left.tables = right.tables)
    (horder : left.order.map SortRule.tables = right.order.map SortRule.tables) :
    left.validate = right.validate := by
  have hmissing : ∀ query : Query, query.order.findSome? (missingTable? query.tables) =
      (query.order.map SortRule.tables).findSome?
        fun tables => tables.toList.find? fun table => table ∉ query.tables := by
    intro query
    rw [List.findSome?_map]
    rfl
  unfold validate
  rw [hmissing, hmissing, horder, htables]
  simp only [hresults]

/-! ## The fault that is reported -/

/-- The rule mentions the table, the statement does not have it, and the bytes of its name come before
those of every other such table. -/
structure LeastMissing (query : Query) (rule : SortRule) (table : Table) : Prop where
  mentioned : rule.Mentions table
  missing : table ∉ query.tables
  least : ∀ other : Table, rule.Mentions other → other ∉ query.tables →
    other = table ∨ compare (nameBytes table.name) (nameBytes other.name) = .lt

/-- The table is the least one that the first rule with missing tables misses. -/
def FirstMissing (query : Query) (table : Table) : Prop :=
  ∃ (before : List SortRule) (rule : SortRule) (after : List SortRule),
    query.order = before ++ rule :: after ∧
      (∀ earlier ∈ before, ∀ other, earlier.Mentions other → other ∈ query.tables) ∧
        query.LeastMissing rule table

/-- The first table of a rule that is missing is the least one, since sets of tables are listed in the
order of the names. -/
theorem missingTable?_eq_some_iff {query : Query} {rule : SortRule} {table : Table} :
    missingTable? query.tables rule = some table ↔ query.LeastMissing rule table := by
  have hincreasing := rule.tables.increasing
  rw [missingTable?, List.find?_eq_some_iff_append]
  constructor
  · rintro ⟨hmissing, before, after, hlist, hbefore⟩
    have hmem : ∀ other, rule.Mentions other ↔ other ∈ before ++ table :: after := fun other => by
      rw [← SortRule.mem_tables_iff_mentions, TableSet.mem_def, hlist]
    rw [hlist, List.pairwise_append, List.pairwise_cons] at hincreasing
    refine ⟨(hmem table).2 (by simp), by simpa using hmissing, fun other hother hnot => ?_⟩
    rcases List.mem_append.1 ((hmem other).1 hother) with hother | hother
    · exact absurd (by simpa using hbefore other hother) hnot
    · exact (List.mem_cons.1 hother).imp_right (hincreasing.2.1.1 other)
  · rintro ⟨hmentioned, hmissing, hleast⟩
    obtain ⟨before, after, hlist⟩ :=
      List.append_of_mem (TableSet.mem_def.1 (SortRule.mem_tables_iff_mentions.2 hmentioned))
    refine ⟨by simpa using hmissing, before, after, hlist, fun earlier hearlier => ?_⟩
    rw [hlist, List.pairwise_append] at hincreasing
    have hbefore : compare earlier table = .lt :=
      hincreasing.2.2 earlier hearlier table List.mem_cons_self
    have hmentions : rule.Mentions earlier := by
      rw [← SortRule.mem_tables_iff_mentions, TableSet.mem_def, hlist]
      exact List.mem_append_left _ hearlier
    have hknown : earlier ∈ query.tables := by
      refine Decidable.byContradiction fun hnot => ?_
      rcases hleast earlier hmentions hnot with rfl | hafter
      · simp at hbefore
      · have hgreater : compare earlier table = .gt := Std.OrientedCmp.gt_of_lt hafter
        rw [hgreater] at hbefore
        cases hbefore
    simpa using hknown

/-- The first table that is missing is the least one that the first rule with missing tables misses. -/
theorem findSome?_missingTable?_eq_some_iff {query : Query} {table : Table} :
    query.order.findSome? (missingTable? query.tables) = some table ↔ query.FirstMissing table := by
  simp only [List.findSome?_eq_some_iff, missingTable?_eq_some_iff, missingTable?_eq_none_iff,
    SortRule.mem_tables_iff_mentions, FirstMissing]
  constructor
  · rintro ⟨before, rule, after, hlist, hleast, hearlier⟩
    exact ⟨before, rule, after, hlist, hearlier, hleast⟩
  · rintro ⟨before, rule, after, hlist, hearlier, hleast⟩
    exact ⟨before, rule, after, hlist, hleast, hearlier⟩

/-- That nothing is selected is reported exactly if that is so. -/
theorem validate_eq_emptyProjection_iff {query : Query} :
    query.validate = .error .emptyProjection ↔ query.results = [] := by
  unfold validate
  split
  · next hnil => simp [hnil]
  · next hne => split <;> simp [hne]

/-- A table is reported exactly if something is selected and it is the first one that is missing. -/
theorem validate_eq_dangling_iff {query : Query} {table : Table} :
    query.validate = .error (.danglingOrderTable table) ↔
      query.results ≠ [] ∧ query.FirstMissing table := by
  rw [← findSome?_missingTable?_eq_some_iff]
  unfold validate
  split
  · next hnil => simp [hnil]
  · next hne =>
    split
    · next found hfound => simp [hne, hfound]
    · next hnone => simp [hnone]

/-- A table that is reported is not one of the statement. -/
theorem not_mem_tables_of_validate {query : Query} {table : Table}
    (h : query.validate = .error (.danglingOrderTable table)) : table ∉ query.tables := by
  obtain ⟨-, before, rule, after, -, -, hleast⟩ := validate_eq_dangling_iff.1 h
  exact hleast.missing

/-- Some table is reported exactly if something is selected and some rule misses a table. -/
theorem exists_validate_eq_dangling_iff {query : Query} :
    (∃ table, query.validate = .error (.danglingOrderTable table)) ↔
      query.results ≠ [] ∧
        ∃ rule ∈ query.order, ∃ table, rule.Mentions table ∧ table ∉ query.tables := by
  constructor
  · rintro ⟨table, hreport⟩
    obtain ⟨hresults, before, rule, after, hlist, -, hleast⟩ := validate_eq_dangling_iff.1 hreport
    have hrule : rule ∈ query.order := hlist ▸ List.mem_append_right _ List.mem_cons_self
    exact ⟨hresults, rule, hrule, table, hleast.mentioned, hleast.missing⟩
  · rintro ⟨hresults, rule, hrule, table, hmentions, hmissing⟩
    cases hverdict : query.validate with
    | ok =>
      have hmem := SortRule.mem_tables_iff_mentions.2 hmentions
      exact absurd ((validate_eq_ok_iff.1 hverdict).2 rule hrule table hmem) hmissing
    | error fault =>
      cases fault with
      | emptyProjection => exact absurd (validate_eq_emptyProjection_iff.1 hverdict) hresults
      | danglingOrderTable reported => exact ⟨reported, rfl⟩

/-- Validation reports that nothing is selected exactly if that is so, whatever is sorted by. If something
is selected, it reports a table exactly if some rule mentions a table that the statement does not have;
the table is the least one that the first such rule misses. It reports nothing exactly if something is
selected and every table that some key mentions is one of the statement. -/
theorem validate_reports_first_fault (query : Query) :
    (query.validate = .error .emptyProjection ↔ query.results = []) ∧
      ((∃ table, query.validate = .error (.danglingOrderTable table)) ↔
        query.results ≠ [] ∧
          ∃ rule ∈ query.order, ∃ table, rule.Mentions table ∧ table ∉ query.tables) ∧
      (∀ table, query.validate = .error (.danglingOrderTable table) ↔
        query.results ≠ [] ∧ query.FirstMissing table) ∧
      (query.validate = .ok () ↔
        query.results ≠ [] ∧
          ∀ rule ∈ query.order, ∀ table, rule.Mentions table → table ∈ query.tables) := by
  refine ⟨validate_eq_emptyProjection_iff, exists_validate_eq_dangling_iff,
    fun table => validate_eq_dangling_iff, ?_⟩
  simp only [validate_eq_ok_iff, SortRule.mem_tables_iff_mentions]

end SqlSelect.Query
