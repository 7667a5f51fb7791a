import SqlSelect.Query.Basic

/-!
# Folding joins

The joins that the expressions of a statement carry are conditions that SQL has to be told. Folding
adds them behind the conditions that are there, each one once, in the order in which they are met
in the selected items, the conditions and the sort rules; a join that is a condition already is
not added again.
-/

namespace SqlSelect.Query

/-- The conditions in `list` and then those of `more` that neither it nor the statement has. -/
def appendMissing (query : Query) (list more : List Expr) : List Expr :=
  more.foldl
    (fun list condition =>
      if condition ∈ list ∨ condition ∈ query.predicates then list else list ++ [condition])
    list

/-- The conditions of the joins that the statement carries and does not have yet. -/
def missingJoins (query : Query) : List Expr :=
  query.expressions.foldl (fun list e => query.appendMissing list e.joins) []

/-- The statement with the conditions of its joins. -/
def foldJoins (query : Query) : Query :=
  { query with predicates := query.predicates ++ query.missingJoins }

@[simp] theorem results_foldJoins (query : Query) : query.foldJoins.results = query.results := rfl

@[simp] theorem order_foldJoins (query : Query) : query.foldJoins.order = query.order := rfl

@[simp] theorem predicates_foldJoins (query : Query) :
    query.foldJoins.predicates = query.predicates ++ query.missingJoins := rfl

/-- What is appended is new. -/
theorem mem_appendMissing {query : Query} {list more : List Expr} {condition : Expr} :
    condition ∈ query.appendMissing list more ↔
      condition ∈ list ∨ condition ∈ more ∧ condition ∉ query.predicates := by
  induction more generalizing list with
  | nil => simp [appendMissing]
  | cons first rest ih =>
    rw [appendMissing, List.foldl_cons, ← appendMissing, ih, List.mem_cons]
    by_cases hlist : first ∈ list
    · rw [if_pos (.inl hlist)]
      constructor
      · intro h
        exact h.imp_right fun h => ⟨.inr h.1, h.2⟩
      · intro h
        rcases h with h | ⟨rfl | h, hnew⟩
        · exact .inl h
        · exact .inl hlist
        · exact .inr ⟨h, hnew⟩
    · by_cases hknown : first ∈ query.predicates
      · rw [if_pos (.inr hknown)]
        constructor
        · intro h
          exact h.imp_right fun h => ⟨.inr h.1, h.2⟩
        · intro h
          rcases h with h | ⟨rfl | h, hnew⟩
          · exact .inl h
          · exact absurd hknown hnew
          · exact .inr ⟨h, hnew⟩
      · rw [if_neg (by simp [hlist, hknown]), List.mem_append, List.mem_singleton]
        constructor
        · intro h
          rcases h with (h | rfl) | h
          · exact .inl h
          · exact .inr ⟨.inl rfl, hknown⟩
          · exact .inr ⟨.inr h.1, h.2⟩
        · intro h
          rcases h with h | ⟨rfl | h, hnew⟩
          · exact .inl (.inl h)
          · exact .inl (.inr rfl)
          · exact .inr ⟨h, hnew⟩

/-- The missing joins are those that some expression carries and no condition states. -/
theorem mem_missingJoins {query : Query} {condition : Expr} :
    condition ∈ query.missingJoins ↔
      (∃ e ∈ query.expressions, condition ∈ e.joins) ∧ condition ∉ query.predicates := by
  have fold : ∀ (expressions list : List Expr),
      condition ∈ expressions.foldl (fun list e => query.appendMissing list e.joins) list ↔
        condition ∈ list ∨
          (∃ e ∈ expressions, condition ∈ e.joins) ∧ condition ∉ query.predicates := by
    intro expressions
    induction expressions with
    | nil => intro list; simp
    | cons first rest ih =>
      intro list
      rw [List.foldl_cons, ih, mem_appendMissing, or_assoc, ← or_and_right]
      simp
  rw [missingJoins, fold]
  simp

end SqlSelect.Query
