import SqlSelect.Proofs.Tree.Occurrence
import SqlSelect.Query.Joins

/-!
# What folding joins adds

Folding adds the conditions of the joins that a statement carries and that it does not have yet. These
conditions carry no joins, so folding twice is folding once, and conditions of this kind that were
there before make no difference for the joins that are carried. The tables that folding adds are the
ends of the joins in the expressions that are sorted by; those of all other joins are tables of the
statement already.
-/

namespace SqlSelect.Query

/-- An expression of the statement carries a join with the condition. -/
def Carries (query : Query) (condition : Expr) : Prop :=
  ∃ e ∈ query.expressions, condition ∈ e.joins

/-- A join with an end in the table stands in an expression that the statement sorts by. -/
def SortsByJoin (query : Query) (table : Table) : Prop :=
  ∃ rule ∈ query.order, ∃ e ∈ rule.expressions, e.JoinsTable table

/-- What is carried is the condition of a join. -/
theorem Carries.eq_joinCondition {query : Query} {condition : Expr} (h : query.Carries condition) :
    ∃ left right : Column, condition = Expr.joinCondition left right := by
  obtain ⟨e, -, hjoins⟩ := h
  obtain ⟨left, right, carrier, -, heq⟩ := Expr.mem_joins_iff_standsIn.1 hjoins
  exact ⟨left, right, heq⟩

/-- A condition that is carried carries no join itself. -/
theorem Carries.joins_eq_nil {query : Query} {condition : Expr} (h : query.Carries condition) :
    condition.joins = [] := by
  obtain ⟨left, right, rfl⟩ := h.eq_joinCondition
  exact Expr.joins_joinCondition left right

/-- A further condition leaves the joins that are carried. -/
theorem Carries.filter {query : Query} {condition : Expr} (h : query.Carries condition)
    (predicate : Expr) : (query.filter predicate).Carries condition := by
  obtain ⟨e, he, hjoins⟩ := h
  refine ⟨e, mem_expressions_iff.2 ?_, hjoins⟩
  exact (mem_expressions_iff.1 he).imp_right fun h' => h'.imp_left (List.mem_append_left _)

/-- Further sort rules leave the joins that are carried. -/
theorem Carries.sortedBy {query : Query} {condition : Expr} (h : query.Carries condition)
    (rules : List SortRule) : (query.sortedBy rules).Carries condition := by
  obtain ⟨e, he, hjoins⟩ := h
  refine ⟨e, mem_expressions_iff.2 ?_, hjoins⟩
  refine (mem_expressions_iff.1 he).imp_right fun h' => h'.imp_right fun hsorted => ?_
  obtain ⟨rule, hrule, he⟩ := hsorted
  exact ⟨rule, List.mem_append_right _ hrule, he⟩

/-- After folding the conditions are those from before and those of the joins. -/
theorem mem_predicates_foldJoins {query : Query} {condition : Expr} :
    condition ∈ query.foldJoins.predicates ↔
      condition ∈ query.predicates ∨ query.Carries condition := by
  rw [predicates_foldJoins, List.mem_append, mem_missingJoins]
  constructor
  · exact fun h => h.imp_right And.left
  · intro h
    by_cases hknown : condition ∈ query.predicates
    · exact .inl hknown
    · exact h.imp_right fun hcarries => ⟨hcarries, hknown⟩

/-! ## Statements that miss the same joins -/

/-- The missing joins are those of all expressions, one after the other, that are new. -/
theorem missingJoins_eq_appendMissing (query : Query) :
    query.missingJoins = query.appendMissing [] (query.expressions.flatMap Expr.joins) := by
  rw [missingJoins, appendMissing, List.foldl_flatMap]
  rfl

/-- What is appended depends only on which of the new conditions are there already. -/
theorem appendMissing_congr {left right : Query} {more : List Expr}
    (h : ∀ condition ∈ more, condition ∈ left.predicates ↔ condition ∈ right.predicates)
    (list : List Expr) : left.appendMissing list more = right.appendMissing list more := by
  induction more generalizing list with
  | nil => rfl
  | cons first rest ih =>
    have hfirst := h first List.mem_cons_self
    have hrest := ih fun condition hcondition => h condition (List.mem_cons_of_mem _ hcondition)
    unfold appendMissing at hrest ⊢
    simp only [List.foldl_cons, hfirst, hrest]

/-- Statements miss the same joins if their expressions carry the same ones and the same of these are
conditions. -/
theorem missingJoins_congr {left right : Query}
    (hjoins : left.expressions.map Expr.joins = right.expressions.map Expr.joins)
    (hpredicates : ∀ condition, left.Carries condition →
      (condition ∈ left.predicates ↔ condition ∈ right.predicates)) :
    left.missingJoins = right.missingJoins := by
  have hflat : left.expressions.flatMap Expr.joins = right.expressions.flatMap Expr.joins := by
    rw [List.flatMap_def, List.flatMap_def, hjoins]
  rw [missingJoins_eq_appendMissing, missingJoins_eq_appendMissing, ← hflat]
  refine appendMissing_congr (fun condition hcondition => hpredicates condition ?_) []
  exact List.mem_flatMap.1 hcondition

/-! ## Conditions of joins among the conditions -/

/-- A statement that has the results and the order of another one and all of its conditions; what it
has besides are conditions of joins that the other one carries. -/
structure ExtendsByJoins (folded plain : Query) : Prop where
  results : folded.results = plain.results
  order : folded.order = plain.order
  kept : ∀ e ∈ plain.predicates, e ∈ folded.predicates
  added : ∀ e ∈ folded.predicates, e ∈ plain.predicates ∨ plain.Carries e

namespace ExtendsByJoins

variable {folded plain : Query}

theorem refl (query : Query) : ExtendsByJoins query query :=
  ⟨rfl, rfl, fun _ h => h, fun _ h => .inl h⟩

/-- Both statements carry the same joins. -/
theorem carries_iff (h : ExtendsByJoins folded plain) {condition : Expr} :
    folded.Carries condition ↔ plain.Carries condition := by
  simp only [Carries, mem_expressions_iff, h.results, h.order]
  constructor
  · intro hcarries
    obtain ⟨e, hresult | hpredicate | hrule, hjoins⟩ := hcarries
    · exact ⟨e, .inl hresult, hjoins⟩
    · rcases h.added e hpredicate with hplain | hadded
      · exact ⟨e, .inr (.inl hplain), hjoins⟩
      · rw [hadded.joins_eq_nil] at hjoins
        exact absurd hjoins List.not_mem_nil
    · exact ⟨e, .inr (.inr hrule), hjoins⟩
  · intro hcarries
    obtain ⟨e, he, hjoins⟩ := hcarries
    exact ⟨e, he.imp_right fun h' => h'.imp_left (h.kept e), hjoins⟩

/-- Folding the extended statement extends the other one still. -/
theorem foldJoins (h : ExtendsByJoins folded plain) : ExtendsByJoins folded.foldJoins plain where
  results := h.results
  order := h.order
  kept e he := mem_predicates_foldJoins.2 (.inl (h.kept e he))
  added e he := by
    rcases mem_predicates_foldJoins.1 he with hfolded | hcarries
    · exact h.added e hfolded
    · exact .inr (h.carries_iff.1 hcarries)

/-- A further condition in both statements keeps the relation. -/
theorem filter (h : ExtendsByJoins folded plain) (predicate : Expr) :
    ExtendsByJoins (folded.filter predicate) (plain.filter predicate) where
  results := h.results
  order := h.order
  kept e he := by
    rcases List.mem_append.1 he with hplain | hlast
    · exact List.mem_append_left _ (h.kept e hplain)
    · exact List.mem_append_right _ hlast
  added e he := by
    rcases List.mem_append.1 he with hfolded | hlast
    · exact (h.added e hfolded).imp (List.mem_append_left _) fun hcarries =>
        hcarries.filter predicate
    · exact .inl (List.mem_append_right _ hlast)

/-- Further sort rules in both statements keep the relation. -/
theorem sortedBy (h : ExtendsByJoins folded plain) (rules : List SortRule) :
    ExtendsByJoins (folded.sortedBy rules) (plain.sortedBy rules) where
  results := h.results
  order := congrArg (rules ++ ·) h.order
  kept := h.kept
  added e he := (h.added e he).imp_right fun hcarries => hcarries.sortedBy rules

/-- Once both are folded, the statements have the same conditions. -/
theorem mem_predicates_iff (h : ExtendsByJoins folded plain) {condition : Expr} :
    condition ∈ folded.foldJoins.predicates ↔ condition ∈ plain.foldJoins.predicates := by
  rw [mem_predicates_foldJoins, mem_predicates_foldJoins, h.carries_iff]
  constructor
  · exact fun he => he.elim (h.added condition) .inr
  · exact fun he => he.imp_left (h.kept condition)

end ExtendsByJoins

/-- A folded statement has all of its joins. -/
theorem missingJoins_foldJoins (query : Query) : query.foldJoins.missingJoins = [] := by
  refine List.eq_nil_iff_forall_not_mem.2 fun condition hmissing => ?_
  obtain ⟨hcarries, hnew⟩ := mem_missingJoins.1 hmissing
  have hquery : query.Carries condition :=
    (ExtendsByJoins.refl query).foldJoins.carries_iff.1 hcarries
  exact hnew (mem_predicates_foldJoins.2 (.inr hquery))

/-! ## Tables -/

/-- The tables of the joins of a statement are its own, or ends of joins that are sorted by. -/
theorem Carries.mem_tables_or_sortsByJoin {query : Query} {condition : Expr} {table : Table}
    (h : query.Carries condition) (htable : table ∈ condition.tables) :
    table ∈ query.tables ∨ query.SortsByJoin table := by
  obtain ⟨e, he, hjoins⟩ := h
  obtain ⟨result, hresult, he⟩ | hpredicate | ⟨rule, hrule, he⟩ := mem_expressions_iff.1 he
  · have hown := Expr.mem_tables_of_mem_joins hjoins htable
    exact .inl (mem_tables.2 (.inl ⟨result, hresult, Projection.mem_tables.2 (.inr ⟨e, he, hown⟩)⟩))
  · have hown := Expr.mem_tables_of_mem_joins hjoins htable
    exact .inl (mem_tables.2 (.inr ⟨e, hpredicate, hown⟩))
  · obtain ⟨left, right, carrier, hstands, rfl⟩ := Expr.mem_joins_iff_standsIn.1 hjoins
    exact .inr ⟨rule, hrule, e, he, left, right, carrier, hstands,
      Expr.mem_tables_joinCondition.1 htable⟩

/-- Folding adds exactly the ends of the joins that are sorted by to the tables. -/
theorem mem_tables_foldJoins {query : Query} {table : Table} :
    table ∈ query.foldJoins.tables ↔ table ∈ query.tables ∨ query.SortsByJoin table := by
  constructor
  · intro h
    obtain hresult | ⟨e, he, htable⟩ := mem_tables.1 h
    · exact .inl (mem_tables.2 (.inl hresult))
    · rcases mem_predicates_foldJoins.1 he with hpredicate | hcarries
      · exact .inl (mem_tables.2 (.inr ⟨e, hpredicate, htable⟩))
      · exact hcarries.mem_tables_or_sortsByJoin htable
  · intro h
    rcases h with h | ⟨rule, hrule, e, he, left, right, carrier, hstands, hends⟩
    · refine mem_tables.2 ((mem_tables.1 h).imp_right fun hpredicate => ?_)
      obtain ⟨e, he, htable⟩ := hpredicate
      exact ⟨e, mem_predicates_foldJoins.2 (.inl he), htable⟩
    · have hcarries : query.Carries (Expr.joinCondition left right) :=
        ⟨e, mem_expressions_iff.2 (.inr (.inr ⟨rule, hrule, he⟩)),
          Expr.mem_joins_iff_standsIn.2 ⟨left, right, carrier, hstands, rfl⟩⟩
      exact mem_tables.2 (.inr ⟨_, mem_predicates_foldJoins.2 (.inr hcarries),
        Expr.mem_tables_joinCondition.2 hends⟩)

end SqlSelect.Query
