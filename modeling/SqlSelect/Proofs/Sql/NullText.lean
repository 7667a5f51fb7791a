import SqlSelect.Proofs.Query.NullComparison
import SqlSelect.Proofs.Sql.Alike

/-!
# Expressions written as NULL

An expression is written as NULL if it is a literal that stands for NULL, or if such a literal stands
inside nothing but joins, which are not written. The builders of comparisons look for the literal only.
So a NULL that is hidden by a join takes part in a comparison with `=` or `!=`, unless the other side is
a literal that stands for NULL. In all other cases what is written as NULL is tested by IS or IS NOT.
-/

namespace SqlSelect

namespace Expr

/-- Joins around a literal that stands for NULL. -/
inductive HidesNull : Expr → Prop
  | literal {left right : Column} {carrier : Expr} (hcarrier : carrier.StandsForNull) :
      HidesNull (.join left right carrier)
  | join {left right : Column} {carrier : Expr} (hcarrier : carrier.HidesNull) :
      HidesNull (.join left right carrier)

/-- What is written of the two comparisons for equality is what it should be: a side that is written as
NULL is tested by IS or IS NOT, the right one before the left one; `=` and `!=` stand only between sides
that are not written as NULL. -/
structure NullTested (left right : Expr) : Prop where
  right_null : sql right = "NULL" →
    sql (left.equals right) = "(" ++ sql left ++ " IS NULL)" ∧
      sql (left.notEquals right) = "(" ++ sql left ++ " IS NOT NULL)"
  left_null : sql left = "NULL" → sql right ≠ "NULL" →
    sql (left.equals right) = "(" ++ sql right ++ " IS NULL)" ∧
      sql (left.notEquals right) = "(" ++ sql right ++ " IS NOT NULL)"
  not_null : sql left ≠ "NULL" → sql right ≠ "NULL" →
    sql (left.equals right) = "(" ++ sql left ++ " = " ++ sql right ++ ")" ∧
      sql (left.notEquals right) = "(" ++ sql left ++ " != " ++ sql right ++ ")"

/-! ## What is written as NULL -/

theorem StandsForNull.sql_eq {e : Expr} (h : e.StandsForNull) : sql e = "NULL" := by
  rcases h with rfl | ⟨x, hnan, rfl⟩
  · rfl
  · have hrender : (literal (.real x)).render = "NULL".toList := if_pos hnan
    exact (congrArg String.ofList hrender).trans String.ofList_toList

theorem HidesNull.sql_eq {e : Expr} (h : e.HidesNull) : sql e = "NULL" := by
  induction h with
  | literal hcarrier => exact hcarrier.sql_eq
  | join _ ih => exact ih

/-- A join is no literal. -/
theorem HidesNull.not_standsForNull {e : Expr} (h : e.HidesNull) : ¬ e.StandsForNull := by
  cases h <;> simp [StandsForNull]

/-- A literal that stands for NULL inside of joins, if any. -/
theorem standsForNull_or_hidesNull_of_core {e : Expr} (h : e.core.StandsForNull) :
    e.StandsForNull ∨ e.HidesNull := by
  fun_induction core e with
  | case1 left right carrier ih => exact .inr ((ih h).elim .literal .join)
  | case2 => exact .inl h

/-- Only a literal that stands for NULL has the text of NULL, once the joins are taken away: texts are
unambiguous, and the other literals have tokens of their own. -/
theorem standsForNull_core_of_sql {e : Expr} (h : sql e = "NULL") : e.core.StandsForNull := by
  have htokens : some e.sqlTree.tokens = some (literal .null).sqlTree.tokens := by
    rw [← sqlTokens?_expr, ← sqlTokens?_expr, h]
    rfl
  have htree : e.core.sqlTree = (literal .null).sqlTree :=
    e.sqlTree_core.trans (sqlTree_eq_of_tokens_eq (Option.some.inj htokens)).symm
  cases hcore : e.core with
  | literal value =>
    rw [hcore] at htree
    have hnull := Literal.isNullText_of_constant (SqlExpr.constant.inj htree)
    cases value with
    | null => exact .inl rfl
    | real x => exact .inr ⟨x, hnull, rfl⟩
    | _ => cases hnull
  | join left right carrier => exact absurd hcore (e.core_ne_join left right carrier)
  | _ =>
    rw [hcore] at htree
    cases htree

/-- An expression is written as NULL exactly if it is a literal that stands for NULL, or joins around
one. -/
theorem sql_eq_null_iff {e : Expr} : sql e = "NULL" ↔ e.StandsForNull ∨ e.HidesNull := by
  constructor
  · intro h
    exact standsForNull_or_hidesNull_of_core (standsForNull_core_of_sql h)
  · intro h
    exact h.elim StandsForNull.sql_eq HidesNull.sql_eq

/-! ## Comparisons -/

/-- An operator is written between its operands, in parentheses. -/
theorem sql_binary (op : BinaryOp) (left right : Expr) :
    sql (binary op left right) = "(" ++ sql left ++ " " ++ op.symbol ++ " " ++ sql right ++ ")" := by
  apply String.toList_inj.1
  simp [sql, SqlText.render, render, binaryText]

/-- If the right side is a literal that stands for NULL, the left side is tested for NULL. -/
theorem sql_nullAware_of_right {op nullOp : BinaryOp} {left right : Expr}
    (hright : right.StandsForNull) : sql (nullAware op nullOp left right) =
      "(" ++ sql left ++ (" " ++ nullOp.symbol ++ " NULL)") := by
  rw [nullAware, if_pos (isNullLiteral_iff.2 hright), sql_binary, hright.sql_eq]
  simp only [String.append_assoc]
  rfl

/-- If only the left side is a literal that stands for NULL, the right side is tested for NULL. -/
theorem sql_nullAware_of_left {op nullOp : BinaryOp} {left right : Expr}
    (hleft : left.StandsForNull) (hright : ¬ right.StandsForNull) :
    sql (nullAware op nullOp left right) =
      "(" ++ sql right ++ (" " ++ nullOp.symbol ++ " NULL)") := by
  rw [nullAware, if_neg (mt isNullLiteral_iff.1 hright), if_pos (isNullLiteral_iff.2 hleft),
    sql_binary, hleft.sql_eq]
  simp only [String.append_assoc]
  rfl

/-- If neither side is a literal that stands for NULL, the sides are compared plainly. -/
theorem sql_nullAware_of_neither {op nullOp : BinaryOp} {left right : Expr}
    (hleft : ¬ left.StandsForNull) (hright : ¬ right.StandsForNull) :
    sql (nullAware op nullOp left right) =
      "(" ++ sql left ++ (" " ++ op.symbol ++ " ") ++ sql right ++ ")" := by
  rw [nullAware, if_neg (mt isNullLiteral_iff.1 hright), if_neg (mt isNullLiteral_iff.1 hleft),
    sql_binary]
  simp only [String.append_assoc]

/-- If a side is a literal that stands for NULL, or if no NULL is hidden, all is written as it should be. -/
theorem nullTested_of {left right : Expr}
    (h : left.HidesNull ∨ right.HidesNull → left.StandsForNull ∨ right.StandsForNull) :
    left.NullTested right := by
  by_cases hright : right.StandsForNull
  · have hnull := hright.sql_eq
    exact ⟨fun _ => ⟨sql_nullAware_of_right hright, sql_nullAware_of_right hright⟩,
      fun _ hne => absurd hnull hne, fun _ hne => absurd hnull hne⟩
  · by_cases hleft : left.StandsForNull
    · have hnull := hleft.sql_eq
      have hequals : sql (left.equals right) = "(" ++ sql right ++ " IS NULL)" :=
        sql_nullAware_of_left hleft hright
      have hnotEquals : sql (left.notEquals right) = "(" ++ sql right ++ " IS NOT NULL)" :=
        sql_nullAware_of_left hleft hright
      refine ⟨fun hhidden => ?_, fun _ _ => ⟨hequals, hnotEquals⟩, fun hne _ => absurd hnull hne⟩
      rw [hequals, hnotEquals, hhidden, hnull]
      exact ⟨rfl, rfl⟩
    · have hhidden : ¬ (left.HidesNull ∨ right.HidesNull) := fun hhides =>
        (h hhides).elim hleft hright
      have hleft_text : sql left ≠ "NULL" := fun hnull =>
        (sql_eq_null_iff.1 hnull).elim hleft fun hhides => hhidden (.inl hhides)
      have hright_text : sql right ≠ "NULL" := fun hnull =>
        (sql_eq_null_iff.1 hnull).elim hright fun hhides => hhidden (.inr hhides)
      exact ⟨fun hnull => absurd hnull hright_text, fun hnull => absurd hnull hleft_text,
        fun _ _ => ⟨sql_nullAware_of_neither hleft hright, sql_nullAware_of_neither hleft hright⟩⟩

/-- If neither side is a literal that stands for NULL and one of them hides it, that side is compared by
`=`. The two texts differ in length. -/
theorem not_nullTested {left right : Expr} (hhides : left.HidesNull ∨ right.HidesNull)
    (hleft : ¬ left.StandsForNull) (hright : ¬ right.StandsForNull) : ¬ left.NullTested right := by
  intro htested
  have hplain : sql (left.equals right) = "(" ++ sql left ++ " = " ++ sql right ++ ")" :=
    sql_nullAware_of_neither hleft hright
  by_cases hnull : sql right = "NULL"
  · have hlength := congrArg String.length ((htested.right_null hnull).1.symm.trans hplain)
    rw [hnull] at hlength
    simp only [String.length_append] at hlength
    change 1 + (sql left).length + 9 = 1 + (sql left).length + 3 + 4 + 1 at hlength
    omega
  · have hhidden : left.HidesNull := hhides.resolve_right fun h => hnull h.sql_eq
    have htest := (htested.left_null hhidden.sql_eq hnull).1
    have hlength := congrArg String.length (htest.symm.trans hplain)
    rw [hhidden.sql_eq] at hlength
    simp only [String.length_append] at hlength
    change 1 + (sql right).length + 9 = 1 + 4 + 3 + (sql right).length + 1 at hlength
    omega

end Expr

/-- The builders recognise what is written as NULL exactly in the expressions that do not hide it in joins.
The two comparisons for equality are written as they should be exactly if neither side hides a NULL in
joins or one of them is a literal that stands for NULL. -/
theorem null_tested_unless_hidden (e left right : Expr) :
    ((e.isNullLiteral = true ↔ sql e = "NULL") ↔ ¬ e.HidesNull) ∧
      (left.NullTested right ↔
        (left.HidesNull ∨ right.HidesNull →
          left.isNullLiteral = true ∨ right.isNullLiteral = true)) := by
  simp only [Expr.isNullLiteral_iff]
  constructor
  · constructor
    · intro h hhides
      exact hhides.not_standsForNull (h.2 hhides.sql_eq)
    · intro hnot
      rw [Expr.sql_eq_null_iff]
      exact ⟨.inl, fun h => h.resolve_right hnot⟩
  · constructor
    · intro h hhides
      by_cases hleft : left.StandsForNull
      · exact .inl hleft
      · by_cases hright : right.StandsForNull
        · exact .inr hright
        · exact absurd h (Expr.not_nullTested hhides hleft hright)
    · exact Expr.nullTested_of

/-- A join around NULL is written as NULL and not recognised, so a comparison with it is written by `=`. -/
theorem hidden_null_is_compared :
    let author : Column := ⟨⟨"books"⟩, "author"⟩
    let id : Column := ⟨⟨"authors"⟩, "id"⟩
    let hidden : Expr := .join author id (.literal .null)
    (hidden.isNullLiteral = false ∧ sql hidden = "NULL") ∧
      sql ((Expr.column author).equals hidden) = "(\"books\".\"author\" = NULL)" ∧
        ¬ (Expr.column author).NullTested hidden := by
  intro author id hidden
  refine ⟨⟨rfl, rfl⟩, by decide +kernel, ?_⟩
  have hhides : hidden.HidesNull := .literal (.inl rfl)
  exact Expr.not_nullTested (.inr hhides) (by simp [Expr.StandsForNull]) hhides.not_standsForNull

end SqlSelect
