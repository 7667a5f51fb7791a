import SqlSelect.Proofs.Binary64.Shortest
import SqlSelect.Proofs.Codec.Encode
import SqlSelect.Proofs.Sql.Alike

/-!
# Finite reals in SQL and in JSON

Both formats write a finite real as a number that is rounded to that real and to no other one, the sign
of a zero included, and neither writes it as an integer. They put the point and the exponent in
different places, and yet write the same number, as both write the shortest digits. The one exception is
a real in the middle of two decimals with the fewest digits: SQL has the one that is further from zero,
JSON the one whose last digit is even.
-/

namespace SqlSelect

open Binary64

/-- A number with the sign of a real or a numeral. -/
def signed (negative : Bool) (size : ℚ) : ℚ := if negative then -size else size

/-- The number that a numeral stands for. -/
def Numeral.number (numeral : Numeral) : ℚ := signed numeral.negative numeral.size

/-- A numeral with a fraction or an exponent shows it. -/
theorem Numeral.point_or_exponent_mem_text (plus : Bool) {numeral : Numeral}
    (h : numeral.fraction ≠ [] ∨ numeral.exponent ≠ none) :
    '.' ∈ numeral.text plus ∨ 'e' ∈ numeral.text plus := by
  unfold text
  rcases h with hfraction | hexponent
  · refine .inl (List.mem_append_left _ (List.mem_append_right _ ?_))
    rw [if_neg hfraction]
    exact List.mem_cons_self
  · obtain ⟨exponent, hsome⟩ := Option.ne_none_iff_exists'.1 hexponent
    refine .inr (List.mem_append_right _ ?_)
    rw [hsome]
    exact List.mem_cons_self

/-! ## The two numerals -/

namespace Literal

/-- In SQL a finite real is its numeral. -/
theorem toList_sql_real {x : Binary64} (h : x.isFinite) :
    (sql (Literal.real x)).toList = realNotation.text x := by
  have htext : (sql (Literal.real x)).toList = realText x := String.toList_ofList
  obtain ⟨hnan, hinfinite⟩ := isFinite_iff.1 h
  rw [htext, realText, hnan, hinfinite]
  rfl

/-- The one SQL token of a literal. -/
theorem sqlTokens?_literal (value : Literal) :
    sqlTokens? (sql value).toList = some [value.constant.token] := by
  have htext : (sql value).toList = value.render := String.toList_ofList
  rw [htext]
  exact (reads_literal value).sqlTokens?_eq fun _ hc => by cases hc

/-- The constant of a finite real is its numeral. -/
theorem constant_real {x : Binary64} (h : x.isFinite) :
    (Literal.real x).constant = .number (realNotation.numeral x) := by
  obtain ⟨hnan, hinfinite⟩ := isFinite_iff.1 h
  rw [constant, realConstant, hnan, hinfinite]
  rfl

/-- A literal with the SQL text of a finite real has its numeral. -/
theorem token_of_sql_eq {x : Binary64} (h : x.isFinite) {other : Literal}
    (hsame : sql (Literal.real x) = sql other) :
    other.constant.token = .number (realNotation.numeral x) := by
  have htokens := sqlTokens?_literal other
  rw [← hsame, sqlTokens?_literal, constant_real h] at htokens
  exact (List.cons.inj (Option.some.inj htokens)).1.symm

/-- No integer has the SQL text of a finite real. -/
theorem sql_real_ne_integer {x : Binary64} (h : x.isFinite) (number : Int64) :
    sql (Literal.real x) ≠ sql (Literal.integer number) := by
  intro hsame
  have hnumeral := SqlToken.number.inj (token_of_sql_eq h hsame)
  have hinteger := realNotation.toInt?_numeral x
  rw [← hnumeral, Numeral.toInt?_ofInt] at hinteger
  exact absurd hinteger (Option.some_ne_none _)

/-- No infinity has the SQL text of a finite real. -/
theorem sql_real_ne_infinite {x : Binary64} (h : x.isFinite) (negative : Bool) :
    sql (Literal.real x) ≠ sql (Literal.real (ofParts negative infiniteMagnitude)) := by
  intro hsame
  have hconstant : ∀ negative, (Literal.real (ofParts negative infiniteMagnitude)).constant =
      .number (infiniteNumeral negative) := by decide +kernel
  have htoken := token_of_sql_eq h hsame
  have hread := realNotation.toBinary64?_numeral h
  rw [hconstant] at htoken
  rw [← SqlToken.number.inj htoken, toBinary64?_infiniteNumeral] at hread
  exact absurd hread.symm (Option.some_ne_none _)

/-- A finite real is neither NULL nor an infinity in SQL. -/
theorem sql_real_not_special {x : Binary64} (h : x.isFinite) :
    sql (Literal.real x) ∉ ["NULL", "9e999", "-9e999"] := by
  have hinfinity : sql (Literal.real infinity) = "9e999" := by decide +kernel
  have hnegative : sql (Literal.real negativeInfinity) = "-9e999" := by decide +kernel
  intro hmem
  simp only [List.mem_cons, List.not_mem_nil, or_false] at hmem
  rcases hmem with hnull | hinfinite | hinfinite
  · have htoken := token_of_sql_eq h (show sql (Literal.real x) = sql Literal.null from hnull)
    exact absurd htoken (by simp [constant, SqlConstant.token])
  · exact sql_real_ne_infinite h false (hinfinite.trans hinfinity.symm)
  · exact sql_real_ne_infinite h true (hinfinite.trans hnegative.symm)

/-- In JSON a finite real is its numeral, under the name of its kind. -/
theorem read_encodeText_real {x : Binary64} (h : x.isFinite) :
    Json.read (encodeText .literal (Literal.real x)) =
      (.object [(some "Real", .number (jsonRealNotation.numeral x))], true) := by
  have hpayload : x.encode = .number (jsonRealNotation.numeral x) := by
    obtain ⟨hnan, hinfinite⟩ := isFinite_iff.1 h
    rw [Binary64.encode, hnan, hinfinite]
    rfl
  rw [← hpayload]
  exact Json.read_render (represents_literal (Literal.real x)).writable

end Literal

/-- Every numeral of a finite real has that real as its nearest, and no other one. -/
theorem DecimalNotation.isNearestTo_numeral_iff (style : DecimalNotation) {x : Binary64}
    (h : x.isFinite) (y : Binary64) : y.IsNearestTo (style.numeral x) ↔ y = x := by
  rw [← Numeral.toBinary64?_eq_some_iff, toBinary64?_numeral style h, Option.some.injEq, eq_comm]

/-- Halfway between two shortest decimals a notation writes the one of its rule. -/
theorem DecimalNotation.number_numeral_of_halfway (style : DecimalNotation) {x : Binary64} {low : Nat}
    {unit : Int} (h : IsHalfway x.magnitude low unit) :
    (style.numeral x).number = signed x.negative (style.tie.choose low * 10 ^ unit) := by
  rw [Numeral.number, negative_numeral, size_numeral style h.ne_zero, h.shortest_eq, size_scientific]

/-- In every other case all notations write the same number. -/
theorem DecimalNotation.number_numeral_eq (style style' : DecimalNotation) {x : Binary64}
    (h : ∀ low unit, ¬ IsHalfway x.magnitude low unit) :
    (style.numeral x).number = (style'.numeral x).number := by
  rw [Numeral.number, Numeral.number, negative_numeral, negative_numeral]
  by_cases hzero : x.magnitude = 0
  · rw [size_numeral_zero style hzero, size_numeral_zero style' hzero]
  · rw [size_numeral style hzero, size_numeral style' hzero,
      shortest_eq_of_not_halfway hzero h style.tie style'.tie]

/-! Both notations write 10^-5, only one of them with an exponent. -/

example :
    Literal.realNotation.text ⟨0x3ee4f8b588e368f1⟩ = "1e-5".toList ∧
      jsonRealNotation.text ⟨0x3ee4f8b588e368f1⟩ = "0.00001".toList := by
  decide +kernel

/-! ## Both texts -/

/-- The SQL text of a finite real shows a point or an exponent, so it is the text of no integer, and it
is neither NULL nor an infinity. Both texts hold a number whose nearest real is that real and no other,
the sign of a zero included. Both numbers are the same, unless the real is halfway between two decimals
with the fewest digits: then SQL has the one further from zero, and JSON the one whose last digit is
even. -/
theorem finite_real_in_both_texts (x : Binary64) (hfinite : x.isFinite) :
    ('.' ∈ (sql (Literal.real x)).toList ∨ 'e' ∈ (sql (Literal.real x)).toList) ∧
      (∀ number : Int64, sql (Literal.real x) ≠ sql (Literal.integer number)) ∧
      sql (Literal.real x) ∉ ["NULL", "9e999", "-9e999"] ∧
      ∃ written stored : Numeral,
        sqlTokens? (sql (Literal.real x)).toList = some [.number written] ∧
        Json.read (encodeText .literal (Literal.real x)) =
          (.object [(some "Real", .number stored)], true) ∧
        (∀ y : Binary64, y.IsNearestTo written ↔ y = x) ∧
        (∀ y : Binary64, y.IsNearestTo stored ↔ y = x) ∧
        ((∀ low unit, ¬ IsHalfway x.magnitude low unit) → written.number = stored.number) ∧
        ∀ low unit, IsHalfway x.magnitude low unit →
          written.number = signed x.negative ((low + 1 : Nat) * 10 ^ unit) ∧
          stored.number =
            signed x.negative ((if low % 2 = 0 then low else low + 1 : Nat) * 10 ^ unit) := by
  have htokens := Literal.sqlTokens?_literal (Literal.real x)
  rw [Literal.constant_real hfinite] at htokens
  have hshown := Numeral.point_or_exponent_mem_text Literal.realNotation.plusSign
    (Literal.realNotation.fraction_or_exponent_numeral x)
  refine ⟨Literal.toList_sql_real hfinite ▸ hshown, Literal.sql_real_ne_integer hfinite,
    Literal.sql_real_not_special hfinite, Literal.realNotation.numeral x, jsonRealNotation.numeral x,
    htokens, Literal.read_encodeText_real hfinite,
    Literal.realNotation.isNearestTo_numeral_iff hfinite,
    jsonRealNotation.isNearestTo_numeral_iff hfinite,
    Literal.realNotation.number_numeral_eq jsonRealNotation, fun low unit hhalfway => ?_⟩
  exact ⟨Literal.realNotation.number_numeral_of_halfway hhalfway,
    jsonRealNotation.number_numeral_of_halfway hhalfway⟩

/-- The negative zero keeps its sign in both texts. -/
theorem negative_zero_in_both_texts :
    (⟨0x8000000000000000⟩ : Binary64).isFinite ∧
      (sql (Literal.real ⟨0x8000000000000000⟩) = "-0.0" ∧
        encodeText .literal (Literal.real ⟨0x8000000000000000⟩) =
          Json.objectText [Json.memberText (some "Real") "-0.0".toList]) ∧
      ∃ written stored : Numeral,
        sqlTokens? (sql (Literal.real ⟨0x8000000000000000⟩)).toList = some [.number written] ∧
        Json.read (encodeText .literal (Literal.real ⟨0x8000000000000000⟩)) =
          (.object [(some "Real", .number stored)], true) ∧
        (∀ y : Binary64, y.IsNearestTo written ↔ y = ⟨0x8000000000000000⟩) ∧
        written.number = stored.number := by
  have hfinite : (⟨0x8000000000000000⟩ : Binary64).isFinite := by decide
  have hzero : (⟨0x8000000000000000⟩ : Binary64).magnitude = 0 := by decide
  obtain ⟨-, -, -, written, stored, hwritten, hstored, hnearest, -, hsame, -⟩ :=
    finite_real_in_both_texts ⟨0x8000000000000000⟩ hfinite
  exact ⟨hfinite, ⟨by decide +kernel, by decide +kernel⟩, written, stored, hwritten, hstored, hnearest,
    hsame fun low unit hhalfway => hhalfway.ne_zero hzero⟩

/-- 2^-25 is halfway between two decimals of seventeen digits, and the two texts hold different
numbers. -/
theorem halfway_real_in_both_texts :
    (⟨0x3e60000000000000⟩ : Binary64).isFinite ∧
      ∃ written stored : Numeral,
        sqlTokens? (sql (Literal.real ⟨0x3e60000000000000⟩)).toList = some [.number written] ∧
        Json.read (encodeText .literal (Literal.real ⟨0x3e60000000000000⟩)) =
          (.object [(some "Real", .number stored)], true) ∧
        written.number ≠ stored.number := by
  have hfinite : (⟨0x3e60000000000000⟩ : Binary64).isFinite := by decide
  have hwritten : Literal.realNotation.numeral ⟨0x3e60000000000000⟩ =
      ⟨false, [2], [9, 8, 0, 2, 3, 2, 2, 3, 8, 7, 6, 9, 5, 3, 1, 3], some (-8)⟩ := by decide +kernel
  have hstored : jsonRealNotation.numeral ⟨0x3e60000000000000⟩ =
      ⟨false, [2], [9, 8, 0, 2, 3, 2, 2, 3, 8, 7, 6, 9, 5, 3, 1, 2], some (-8)⟩ := by decide +kernel
  have hcoefficient :
      Digits.value [2, 9, 8, 0, 2, 3, 2, 2, 3, 8, 7, 6, 9, 5, 3, 1, 3] = 29802322387695313 := by decide
  have hcoefficient' :
      Digits.value [2, 9, 8, 0, 2, 3, 2, 2, 3, 8, 7, 6, 9, 5, 3, 1, 2] = 29802322387695312 := by decide
  have htokens := Literal.sqlTokens?_literal (.real ⟨0x3e60000000000000⟩)
  rw [Literal.constant_real hfinite] at htokens
  refine ⟨hfinite, _, _, htokens, Literal.read_encodeText_real hfinite, ?_⟩
  rw [hwritten, hstored]
  simp only [Numeral.number, Numeral.size, Numeral.coefficient, signed, List.singleton_append,
    hcoefficient, hcoefficient']
  norm_num [Numeral.scale]

end SqlSelect
