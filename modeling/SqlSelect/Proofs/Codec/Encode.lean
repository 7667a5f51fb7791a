import SqlSelect.Codec.Encode
import SqlSelect.Proofs.Binary64.ReadBack
import SqlSelect.Proofs.Calendar.ReadBack
import SqlSelect.Proofs.Codec.Represents
import SqlSelect.Proofs.Tree.Canonical

/-!
# Encoded trees represent canonical values

The tree that a value is encoded as represents the canonical form of the value. For the scalars
this is the reading back of numbers, strings and timestamps; for everything else it follows the
forms of the kinds, one member of a record or one variant at a time.
-/

namespace SqlSelect

/-- A value with the one NaN that reading produces in the place of every NaN. -/
def Kind.canonical : (kind : Kind) → kind.Carrier → kind.Carrier
  | .real, v => v.canonical
  | .literal, v => v.canonical
  | .expr, v => v.canonical
  | .projection, v => v.canonical
  | .sortKey, v => v.canonical
  | .sortRule, v => v.canonical
  | .query, v => v.canonical
  | .list item, vs => vs.map item.canonical
  -- No other kind holds reals.
  | .text, v => v
  | .integer, v => v
  | .byte, v => v
  | .timestamp, v => v
  | .binaryOp, v => v
  | .unaryOp, v => v
  | .function, v => v
  | .direction, v => v
  | .table, v => v
  | .column, v => v

/-! ## Scalars -/

theorem represents_text (content : String) : Represents .text (.text content) content := by
  refine ⟨.text content, ?_⟩
  rw [decode]
  rfl

/-- Every integer of 64 bits is read back. -/
theorem represents_integer (number : Int64) :
    Represents .integer (.number (.ofInt number.toInt)) number := by
  refine ⟨.number (Numeral.isStandard_ofInt _), ?_⟩
  have hrange : Int64.minValue.toInt ≤ number.toInt ∧ number.toInt ≤ Int64.maxValue.toInt :=
    ⟨Int64.minValue_le_toInt number, Int64.toInt_le number⟩
  rw [decode]
  simp only [Kind.form, Scalar.integer, Numeral.toInt?_ofInt, if_pos hrange, Int64.ofInt_toInt]

/-- Every byte is read back. -/
theorem represents_byte (byte : UInt8) : Represents .byte (.number (.ofInt byte.toNat)) byte := by
  refine ⟨.number (Numeral.isStandard_ofInt _), ?_⟩
  have hrange : (0 : Int) ≤ byte.toNat ∧ (byte.toNat : Int) < 256 := by
    have hlt := byte.toNat_lt
    omega
  rw [decode]
  simp only [Kind.form, Scalar.byte, Numeral.toInt?_ofInt, if_pos hrange, Int.toNat_natCast,
    UInt8.ofNat_toNat]

/-- Every finite real is read back, every infinity by its name, and every NaN as one. -/
theorem represents_real (x : Binary64) : Represents .real x.encode x.canonical := by
  unfold Binary64.encode Binary64.canonical
  split
  · exact ⟨.text _, by rw [Json.text, decode]; rfl⟩
  · next hnan =>
    split
    · next hinfinite =>
      have hmagnitude : x.magnitude = Binary64.infiniteMagnitude := of_decide_eq_true hinfinite
      have hx := Binary64.ofParts_negative_magnitude x
      rw [hmagnitude] at hx
      refine ⟨.text _, ?_⟩
      rw [← hx, Json.text, decode]
      cases x.negative <;> rfl
    · next hinfinite =>
      have hfinite : x.isFinite := Binary64.isFinite_iff.2
        ⟨Bool.eq_false_of_not_eq_true hnan, Bool.eq_false_of_not_eq_true hinfinite⟩
      refine ⟨.number (DecimalNotation.whole_numeral jsonRealNotation x), ?_⟩
      rw [decode]
      simp only [Kind.form, Scalar.real,
        DecimalNotation.toBinary64?_numeral jsonRealNotation hfinite]

/-- Every timestamp is read back. -/
theorem represents_timestamp (moment : Timestamp) :
    Represents .timestamp (.text (String.ofList moment.exactText)) moment := by
  refine ⟨.text _, ?_⟩
  rw [Json.text, decode]
  simp only [Kind.form, Scalar.timestamp, String.toList_ofList, Timestamp.read?_exactText]

/-! ## Names, tables and literals -/

theorem represents_binaryOp (op : BinaryOp) : Represents .binaryOp op.encode op := by
  cases op <;> exact represents_unit .binaryOp rfl _ rfl

theorem represents_unaryOp (op : UnaryOp) : Represents .unaryOp op.encode op := by
  cases op
  exact represents_unit .unaryOp rfl "Not" rfl

theorem represents_function (function : FunctionName) :
    Represents .function function.encode function := by
  cases function <;> exact represents_unit .function rfl _ rfl

theorem represents_direction (direction : Direction) :
    Represents .direction direction.encode direction := by
  cases direction <;> exact represents_unit .direction rfl _ rfl

theorem represents_table (table : Table) : Represents .table table.encode table :=
  represents_record .table rfl (.cons (represents_text table.name) .nil)

theorem represents_column (column : Column) : Represents .column column.encode column :=
  represents_record .column rfl
    (.cons (represents_table column.table) (.cons (represents_text column.name) .nil))

/-- A literal keeps everything but the payload of a NaN. -/
theorem represents_literal (value : Literal) :
    Represents .literal value.encode value.canonical := by
  cases value with
  | null => exact represents_unit .literal rfl "Null" rfl
  | integer number => exact represents_single .literal rfl "Integer" rfl (represents_integer number)
  | real x => exact represents_single .literal rfl "Real" rfl (represents_real x)
  | text content => exact represents_single .literal rfl "Text" rfl (represents_text content)
  | date moment => exact represents_single .literal rfl "Date" rfl (represents_timestamp moment)
  | blob bytes =>
    have hbytes : Represents (.list .byte)
        (.array (bytes.map fun byte => .number (.ofInt byte.toNat))) bytes := by
      have hlist := represents_list fun byte (_ : byte ∈ bytes) => represents_byte byte
      rwa [List.map_id'] at hlist
    exact represents_single .literal rfl "Blob" rfl hbytes

/-! ## Expressions and statements -/

/-- An item of a SELECT list is represented if its expression is. -/
theorem represents_projection {result : Projection}
    (h : ∀ e ∈ result.expression?, Represents .expr e.encode e.canonical) :
    Represents .projection result.encode result.canonical := by
  cases result with
  | expr expression => exact represents_single .projection rfl "Expression" rfl (h expression rfl)
  | aliased expression label =>
    exact represents_variant .projection rfl "Aliased" rfl
      (.cons (h expression rfl) (.cons (represents_text label) .nil))
  | wildcard table => exact represents_single .projection rfl "Wildcard" rfl (represents_table table)

/-- A sort key is represented if its expression is. -/
theorem represents_sortKey {key : SortKey}
    (h : Represents .expr key.expression.encode key.expression.canonical) :
    Represents .sortKey key.encode key.canonical := by
  obtain ⟨expression, direction⟩ := key
  exact represents_record .sortKey rfl
    (.cons h (.cons (represents_direction direction) .nil))

/-- A sort rule is represented if the expressions of its keys are. -/
theorem represents_sortRule {rule : SortRule}
    (h : ∀ key ∈ rule.orderings, Represents .expr key.expression.encode key.expression.canonical) :
    Represents .sortRule rule.encode rule.canonical := by
  have horderings : Represents (.list .sortKey) (.array (rule.orderings.map SortKey.encode))
      (rule.orderings.map SortKey.canonical) :=
    represents_list fun key hkey => represents_sortKey (h key hkey)
  rw [SortRule.encode_eq, SortRule.canonical_eq]
  exact represents_record .sortRule rfl (.cons horderings .nil)

/-- The steps by which expressions and statements are represented. -/
theorem represents_steps :
    TreeInduction (fun e => Represents .expr e.encode e.canonical)
      (fun query => Represents .query query.encode query.canonical) where
  binary {op left right} hleft hright :=
    represents_variant .expr rfl "Binary" rfl
      (.cons (represents_binaryOp op) (.cons hleft (.cons hright .nil)))
  unary {op operand} hoperand :=
    represents_variant .expr rfl "Unary" rfl
      (.cons (represents_unaryOp op) (.cons hoperand .nil))
  column c := represents_single .expr rfl "Column" rfl (represents_column c)
  literal value := represents_single .expr rfl "Value" rfl (represents_literal value)
  call {function args} hargs := by
    rw [Expr.encode_call, Expr.canonical_call]
    exact represents_variant .expr rfl "Function" rfl
      (.cons (represents_function function) (.cons (represents_list hargs) .nil))
  inList {element values} helement := by
    have hvalues : Represents (.list .literal) (.array (values.map Literal.encode))
        (values.map Literal.canonical) :=
      represents_list fun value _ => represents_literal value
    exact represents_variant .expr rfl "InList" rfl (.cons helement (.cons hvalues .nil))
  join {left right carrier} hcarrier :=
    represents_variant .expr rfl "Join" rfl
      (.cons (represents_column left) (.cons (represents_column right) (.cons hcarrier .nil)))
  existsRow {query} hquery := represents_single .expr rfl "Exists" rfl hquery
  query {query} h := by
    have hresults : Represents (.list .projection) (.array (query.results.map Projection.encode))
        (query.results.map Projection.canonical) :=
      represents_list fun result hresult => represents_projection fun e he =>
        h e (mem_expressions_of_mem_results hresult he)
    have hpredicates : Represents (.list .expr) (.array (query.predicates.map Expr.encode))
        (query.predicates.map Expr.canonical) :=
      represents_list fun e he => h e (mem_expressions_of_mem_predicates he)
    have horder : Represents (.list .sortRule) (.array (query.order.map SortRule.encode))
        (query.order.map SortRule.canonical) :=
      represents_list fun rule hrule => represents_sortRule fun key hkey =>
        h key.expression (mem_expressions_of_mem_orderings hrule hkey)
    rw [Query.encode_eq, Query.canonical_eq]
    exact represents_record .query rfl
      (.cons hresults (.cons hpredicates (.cons horder .nil)))

/-- The tree of a value represents its canonical form. -/
theorem represents_encode (kind : Kind) (value : kind.Carrier) :
    Represents kind (encode kind value) (kind.canonical value) := by
  have hexpr := represents_steps.expr
  induction kind with
  | text => exact represents_text value
  | integer => exact represents_integer value
  | byte => exact represents_byte value
  | real => exact represents_real value
  | timestamp => exact represents_timestamp value
  | binaryOp => exact represents_binaryOp value
  | unaryOp => exact represents_unaryOp value
  | function => exact represents_function value
  | direction => exact represents_direction value
  | table => exact represents_table value
  | column => exact represents_column value
  | literal => exact represents_literal value
  | expr => exact hexpr value
  | projection => exact represents_projection fun e _ => hexpr e
  | sortKey => exact represents_sortKey (hexpr _)
  | sortRule => exact represents_sortRule fun key _ => hexpr key.expression
  | query => exact represents_steps.statement value
  | list item ih => exact represents_list fun v (_ : v ∈ value) => ih v

end SqlSelect
