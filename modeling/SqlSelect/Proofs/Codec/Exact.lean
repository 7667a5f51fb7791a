import Mathlib.Logic.Unique
import SqlSelect.Proofs.Codec.Shape
import SqlSelect.Proofs.Tree.Induction

/-!
# Decoding is exact

Just the trees that spell a value are decoded as it. The decoder recurses on the tree and the spelling
on the value, so the two meet at one node: there the decoder's condition on each part of the tree is
exchanged for the spelling of the part, which the induction on the value provides.
-/

namespace SqlSelect

/-! ## Agreement -/

/-- Two conditions say the same of every well-formed tree. -/
def Json.Agree (left right : Json → Prop) : Prop :=
  ∀ tree : Json, tree.WellFormed → (left tree ↔ right tree)

namespace Json.Agree

theorem refl (condition : Json → Prop) : Agree condition condition := fun _ _ => Iff.rfl

theorem tagged {left right : Json → Prop} (h : Agree left right) (tag : String) :
    Agree (IsTagged tag left) (IsTagged tag right) := by
  intro tree htree
  refine exists_congr fun inner => and_congr_right ?_
  rintro rfl
  exact h inner (wellFormed_tagged_iff.1 htree)

/-- Conditions that agree one by one say the same of the trees of a list. -/
theorem forall₂_iff {α β : Type} {left : α → Json → Prop} {right : β → Json → Prop} {ones : List α}
    {others : List β} (h : List.Forall₂ (fun one other => Agree (left one) (right other)) ones others)
    {items : List Json} (hitems : ∀ item ∈ items, item.WellFormed) :
    List.Forall₂ left ones items ↔ List.Forall₂ right others items := by
  induction h generalizing items with
  | nil => rw [List.forall₂_nil_left_iff, List.forall₂_nil_left_iff]
  | cons hfirst _ ih =>
    cases items with
    | nil => exact ⟨fun h => (by cases h), fun h => (by cases h)⟩
    | cons first rest =>
      obtain ⟨hitem, hrest⟩ := List.forall_mem_cons.1 hitems
      rw [List.forall₂_cons, List.forall₂_cons, hfirst first hitem, ih hrest]

theorem array {α : Type} {left right : α → Json → Prop} {values : List α}
    (h : ∀ value ∈ values, Agree (left value) (right value)) :
    Agree (IsArray (List.Forall₂ left values)) (IsArray (List.Forall₂ right values)) := by
  intro tree htree
  cases tree with
  | array items => exact forall₂_iff (List.forall₂_same.2 h) (wellFormed_array_iff.1 htree)
  | _ => exact Iff.rfl

/-- Records whose fields agree one by one. -/
theorem record {left right : Spellings}
    (h : List.Forall₂ (fun one other => one.1 = other.1 ∧ Agree one.2 other.2) left right) :
    Agree (IsRecord left) (IsRecord right) := by
  intro tree htree
  cases tree with
  | object members =>
    change (∀ field ∈ left, _) ↔ ∀ field ∈ right, _
    induction h with
    | nil => rfl
    | cons hfirst _ ih =>
      obtain ⟨hname, hagree⟩ := hfirst
      rw [List.forall_mem_cons, List.forall_mem_cons, ih, hname]
      refine and_congr_left fun _ => exists_congr fun tree => and_congr_right fun htrees => ?_
      exact hagree tree (htree.held (htrees ▸ List.mem_singleton_self tree))
  | array items => exact forall₂_iff (h.imp fun _ _ => And.right) (wellFormed_array_iff.1 htree)
  | _ => exact Iff.rfl

end Json.Agree

/-- Just the trees that spell a value are decoded as it. -/
def Kind.Exact (kind : Kind) (value : kind.Carrier) : Prop :=
  ∀ tree : Json, tree.WellFormed → (decode kind tree = .ok value ↔ kind.Spelled value tree)

/-- The spellings of the fields of a record with the given values. -/
def Fields.spellings : (fields : Fields) → fields.Values → Json.Spellings
  | [], _ => []
  | (name, kind) :: rest, (value, values) => (name, kind.Spelled value) :: spellings rest values

theorem Fields.agree_record (fields : Fields) (values : fields.Values)
    (h : fields.All Kind.Exact values) :
    Json.Agree (Json.IsRecord (fields.readings values)) (Json.IsRecord (fields.spellings values)) := by
  apply Json.Agree.record
  induction fields with
  | nil => exact .nil
  | cons field rest ih => exact .cons ⟨rfl, h.1⟩ (ih values.2 h.2)

namespace Kind

/-! ## Scalars and names -/

theorem decode_scalar {kind : Kind} {read : Json → Except DecodeError kind.Carrier}
    (hform : kind.form = .scalar read) (tree : Json) : decode kind tree = read tree := by
  rw [decode, hform]

theorem exact_text (content : String) : Kind.text.Exact content := by
  intro tree _
  rw [decode_scalar rfl]
  change _ ↔ tree = .string (some content)
  unfold Scalar.text
  split
  · simp
  · next hother => exact ⟨fun h => (by cases h), fun h => (hother _ h).elim⟩

theorem toInt?_eq_some_iff {numeral : Numeral} {number : Int} :
    numeral.toInt? = some number ↔ Json.IsInteger number (.number numeral) := by
  rw [Json.IsInteger, ← and_assoc, Numeral.toInt?]
  by_cases hplain : numeral.fraction = [] ∧ numeral.exponent = none
  · rw [if_pos hplain, and_iff_right hplain]
    cases numeral.negative with
    | false => simp [eq_comm]
    | true =>
      by_cases hzero : Digits.value numeral.whole = 0
      · simp [hzero]
      · simp [hzero]
        omega
  · rw [if_neg hplain]
    simp [hplain]

/-- A value that must lie in a range is the result just if it does. -/
theorem check_eq_ok_iff {α : Type} {inRange p : Prop} [Decidable inRange] {found value : α}
    (hinside : inRange → (found = value ↔ p)) (hrange : p → inRange) :
    (if inRange then .ok found else .error .mismatch : Except DecodeError α) = .ok value ↔ p := by
  split
  · next h => rw [Except.ok.injEq, hinside h]
  · next h => exact ⟨fun hok => (by cases hok), fun hp => absurd (hrange hp) h⟩

theorem exact_integer (number : Int64) : Kind.integer.Exact number := by
  intro tree _
  rw [decode_scalar rfl]
  change Scalar.integer tree = _ ↔ Json.IsInteger number.toInt tree
  cases tree with
  | number numeral =>
    rw [← toInt?_eq_some_iff, Scalar.integer]
    cases numeral.toInt? with
    | none => simp
    | some written =>
      rw [Option.some.injEq]
      refine check_eq_ok_iff (fun hrange => ?_) ?_
      · rw [Int64.toInt_minValue, Int64.toInt_maxValue] at hrange
        have hback := Int64.toInt_ofInt_of_le hrange.1 (by omega)
        exact ⟨fun h => h ▸ hback.symm, fun h => h ▸ Int64.ofInt_toInt number⟩
      · rintro rfl
        exact ⟨Int64.minValue_le_toInt number, Int64.toInt_le number⟩
  | _ => exact ⟨fun h => (by cases h), fun h => h.elim⟩

theorem exact_byte (number : UInt8) : Kind.byte.Exact number := by
  intro tree _
  rw [decode_scalar rfl]
  change Scalar.byte tree = _ ↔ Json.IsInteger number.toNat tree
  cases tree with
  | number numeral =>
    rw [← toInt?_eq_some_iff, Scalar.byte]
    cases numeral.toInt? with
    | none => simp
    | some written =>
      rw [Option.some.injEq]
      refine check_eq_ok_iff (fun hrange => ?_) ?_
      · have hback : (UInt8.ofNat written.toNat).toNat = written.toNat := by
          rw [UInt8.toNat_ofNat', Nat.mod_eq_of_lt (by omega)]
        constructor
        · rintro rfl
          omega
        · rintro rfl
          rw [Int.toNat_natCast, UInt8.ofNat_toNat]
      · rintro rfl
        have hlt := number.toNat_lt
        omega
  | _ => exact ⟨fun h => (by cases h), fun h => h.elim⟩

theorem exact_real (x : Binary64) : Kind.real.Exact x := by
  intro tree _
  rw [decode_scalar rfl]
  change Scalar.real tree = _ ↔ x.Spelled tree
  cases tree with
  | number numeral =>
    rw [Binary64.Spelled, ← Numeral.toBinary64?_eq_some_iff, Scalar.real]
    cases numeral.toBinary64? <;> simp
  | string content =>
    cases content with
    | none => exact ⟨fun h => (by cases h), fun h => h.elim⟩
    | some name =>
      change Scalar.namedReal name = _ ↔ _ ∨ _ ∨ _
      unfold Scalar.namedReal
      by_cases hnan : name = "NaN"
      · subst hnan
        simp [eq_comm]
      by_cases hinf : name = "inf"
      · subst hinf
        simp [eq_comm]
      by_cases hneg : name = "-inf"
      · subst hneg
        simp [eq_comm]
      simp [hnan, hinf, hneg]
  | _ => exact ⟨fun h => (by cases h), fun h => h.elim⟩

theorem exact_timestamp (moment : Timestamp) : Kind.timestamp.Exact moment := by
  intro tree _
  rw [decode_scalar rfl]
  change Scalar.timestamp tree = _ ↔ moment.Spelled tree
  cases tree with
  | string content =>
    cases content with
    | none => exact ⟨fun h => (by cases h), fun h => h.elim⟩
    | some content =>
      rw [Timestamp.Spelled, ← Timestamp.read?_eq_some_iff, Scalar.timestamp]
      cases Timestamp.read? content.toList <;> simp
  | _ => exact ⟨fun h => (by cases h), fun h => h.elim⟩

/-- A value of a choice is decoded by the one variant that makes it. -/
theorem exact_of_choice {kind : Kind} {variants : List (String × Payload kind.Carrier)}
    (hform : kind.form = .choice variants) {value : kind.Carrier} {reads : Json → Prop}
    (hreads : Json.Agree reads (kind.Spelled value))
    (honly : ∀ tree, (∃ variant ∈ variants, variant.2.Reads variant.1 tree value) ↔ reads tree) :
    kind.Exact value := fun tree htree =>
  (decode_choice_eq_ok_iff hform htree).trans ((honly tree).trans (hreads tree htree))

/-- A value of a record is decoded from the values of the fields that it is made of. -/
theorem exact_of_record {kind : Kind} {fields : Fields} {make : fields.Values → kind.Carrier}
    (hform : kind.form = .record fields make) {value : kind.Carrier} {reads : Json → Prop}
    (hreads : Json.Agree reads (kind.Spelled value))
    (honly : ∀ tree : Json,
      (∃ values, tree.IsRecord (fields.readings values) ∧ make values = value) ↔ reads tree) :
    kind.Exact value := fun tree htree =>
  (decode_record_eq_ok_iff hform htree).trans ((honly tree).trans (hreads tree htree))

theorem exact_binaryOp (op : BinaryOp) : Kind.binaryOp.Exact op :=
  exact_of_choice rfl (.refl _) fun _ => by
    cases op <;> simp [Kind.binaryOpVariants, Payload.Reads, Kind.Spelled, BinaryOp.label]

theorem exact_unaryOp (op : UnaryOp) : Kind.unaryOp.Exact op :=
  exact_of_choice rfl (.refl _) fun _ => by
    cases op
    simp [Payload.Reads, Kind.Spelled, UnaryOp.label]

theorem exact_function (called : FunctionName) : Kind.function.Exact called :=
  exact_of_choice rfl (.refl _) fun _ => by
    cases called <;> simp [Payload.Reads, Kind.Spelled, FunctionName.label]

theorem exact_direction (way : Direction) : Kind.direction.Exact way :=
  exact_of_choice rfl (.refl _) fun _ => by
    cases way <;> simp [Payload.Reads, Kind.Spelled, Direction.label]

theorem exact_list (item : Kind) (values : List item.Carrier)
    (h : ∀ value ∈ values, item.Exact value) : (Kind.list item).Exact values := fun tree htree =>
  decode_list_eq_ok_iff.trans (Json.Agree.array h tree htree)

theorem exact_table : (table : Table) → Kind.table.Exact table
  | ⟨name⟩ => exact_of_record rfl
    (Fields.agree_record [("name", .text)] (name, ()) ⟨exact_text name, trivial⟩)
    fun _ => by simp [Unique.exists_iff]

theorem exact_column : (c : Column) → Kind.column.Exact c
  | ⟨owner, name⟩ => exact_of_record rfl
    (Fields.agree_record [("table", .table), ("name", .text)] (owner, name, ())
      ⟨exact_table owner, exact_text name, trivial⟩)
    fun _ => by simp [Unique.exists_iff]

theorem exact_literal (value : Literal) : Kind.literal.Exact value := by
  cases value with
  | null =>
    refine exact_of_choice rfl (.refl _) fun _ => ?_
    simp [Kind.literalVariants, Payload.Reads, Kind.Spelled, Literal.Spelled]
  | integer number =>
    refine exact_of_choice rfl (.tagged (exact_integer number) "Integer") fun _ => ?_
    simp [Kind.literalVariants, Payload.Reads]
  | real x =>
    refine exact_of_choice rfl (.tagged (exact_real x) "Real") fun _ => ?_
    simp [Kind.literalVariants, Payload.Reads]
  | text content =>
    refine exact_of_choice rfl (.tagged (exact_text content) "Text") fun _ => ?_
    simp [Kind.literalVariants, Payload.Reads]
  | date moment =>
    refine exact_of_choice rfl (.tagged (exact_timestamp moment) "Date") fun _ => ?_
    simp [Kind.literalVariants, Payload.Reads]
  | blob bytes =>
    have hbytes : (Kind.list .byte).Exact bytes := exact_list .byte bytes fun b _ => exact_byte b
    refine exact_of_choice rfl (.tagged hbytes "Blob") fun _ => ?_
    simp [Kind.literalVariants, Payload.Reads]

/-! ## Trees -/

theorem exact_projection {result : Projection} (h : ∀ e ∈ result.expression?, Kind.expr.Exact e) :
    Kind.projection.Exact result := by
  cases result with
  | expr expression =>
    refine exact_of_choice rfl (.tagged (h expression rfl) "Expression") fun _ => ?_
    simp [Kind.projectionVariants, Payload.Reads]
  | aliased expression label =>
    have hfields := Fields.agree_record [("expression", .expr), ("alias", .text)]
      (expression, label, ()) ⟨h expression rfl, exact_text label, trivial⟩
    refine exact_of_choice rfl (hfields.tagged "Aliased") fun _ => ?_
    simp [Kind.projectionVariants, Payload.Reads, Unique.exists_iff]
  | wildcard table =>
    refine exact_of_choice rfl (.tagged (exact_table table) "Wildcard") fun _ => ?_
    simp [Kind.projectionVariants, Payload.Reads]

theorem exact_sortKey {key : SortKey} (h : Kind.expr.Exact key.expression) :
    Kind.sortKey.Exact key := by
  obtain ⟨expression, way⟩ := key
  refine exact_of_record rfl (Fields.agree_record [("expression", .expr), ("direction", .direction)]
    (expression, way, ()) ⟨h, exact_direction way, trivial⟩) fun _ => ?_
  simp [Unique.exists_iff]

theorem exact_sortRule {rule : SortRule} (h : ∀ key ∈ rule.orderings, Kind.expr.Exact key.expression) :
    Kind.sortRule.Exact rule := by
  obtain ⟨orderings⟩ := rule
  have hfields := Fields.agree_record [("orderings", .list .sortKey)] (orderings, ())
    ⟨exact_list .sortKey orderings fun key hkey => exact_sortKey (h key hkey), trivial⟩
  have hspelled : Kind.sortRule.Spelled ⟨orderings⟩ =
      Json.IsRecord (Fields.spellings [("orderings", .list .sortKey)] (orderings, ())) := by
    rw [Kind.Spelled, SortRule.spelled_eq]
    rfl
  refine exact_of_record rfl (hspelled ▸ hfields) fun _ => ?_
  simp [Unique.exists_iff]

theorem exact_query {query : Query} (h : ∀ e ∈ query.expressions, Kind.expr.Exact e) :
    Kind.query.Exact query := by
  have hresults : (Kind.list .projection).Exact query.results :=
    exact_list _ _ fun result hresult => exact_projection fun e he =>
      h e (mem_expressions_of_mem_results hresult he)
  have hpredicates : (Kind.list .expr).Exact query.predicates :=
    exact_list _ _ fun predicate hpredicate => h predicate (mem_expressions_of_mem_predicates hpredicate)
  have horder : (Kind.list .sortRule).Exact query.order :=
    exact_list _ _ fun rule hrule => exact_sortRule fun key hkey =>
      h key.expression (mem_expressions_of_mem_orderings hrule hkey)
  obtain ⟨results, predicates, order⟩ := query
  have hfields := Fields.agree_record
    [("results", .list .projection), ("predicates", .list .expr), ("order", .list .sortRule)]
    (results, predicates, order, ()) ⟨hresults, hpredicates, horder, trivial⟩
  have hspelled : Kind.query.Spelled ⟨results, predicates, order⟩ =
      Json.IsRecord (Fields.spellings
        [("results", .list .projection), ("predicates", .list .expr), ("order", .list .sortRule)]
        (results, predicates, order, ())) := by
    rw [Kind.Spelled, Query.spelled_eq]
    rfl
  refine exact_of_record rfl (hspelled ▸ hfields) fun _ => ?_
  simp [Unique.exists_iff]

theorem exists_unaryOp_iff {p : UnaryOp → Prop} : (∃ op, p op) ↔ p .not :=
  ⟨fun ⟨.not, h⟩ => h, fun h => ⟨.not, h⟩⟩

/-- Each node of an expression is decoded just if its parts are. -/
theorem exact_steps : TreeInduction Kind.expr.Exact Kind.query.Exact where
  binary {op left right} hleft hright := by
    have hfields := Fields.agree_record [("op", .binaryOp), ("left", .expr), ("right", .expr)]
      (op, left, right, ()) ⟨exact_binaryOp op, hleft, hright, trivial⟩
    refine exact_of_choice rfl (hfields.tagged "Binary") fun _ => ?_
    simp [Kind.exprVariants, Payload.Reads, Unique.exists_iff]
  unary {op operand} hoperand := by
    have hfields := Fields.agree_record [("op", .unaryOp), ("expr", .expr)]
      (op, operand, ()) ⟨exact_unaryOp op, hoperand, trivial⟩
    refine exact_of_choice rfl (hfields.tagged "Unary") fun _ => ?_
    cases op
    simp [Kind.exprVariants, Payload.Reads, Unique.exists_iff, exists_unaryOp_iff]
  column c := by
    refine exact_of_choice rfl (.tagged (exact_column c) "Column") fun _ => ?_
    simp [Kind.exprVariants, Payload.Reads]
  literal value := by
    refine exact_of_choice rfl (.tagged (exact_literal value) "Value") fun _ => ?_
    simp [Kind.exprVariants, Payload.Reads]
  call {function args} hargs := by
    have hfields := Fields.agree_record [("func", .function), ("args", .list .expr)]
      (function, args, ()) ⟨exact_function function, exact_list .expr args hargs, trivial⟩
    have hspelled : Kind.expr.Spelled (.call function args) = Json.IsTagged "Function"
        (Json.IsRecord (Fields.spellings [("func", .function), ("args", .list .expr)]
          (function, args, ()))) := by
      rw [Kind.Spelled, Expr.spelled_call]
      rfl
    refine exact_of_choice rfl (hspelled ▸ hfields.tagged "Function") fun _ => ?_
    simp [Kind.exprVariants, Payload.Reads, Unique.exists_iff]
  inList {element values} helement := by
    have hvalues : (Kind.list .literal).Exact values :=
      exact_list .literal values fun value _ => exact_literal value
    have hfields := Fields.agree_record [("expr", .expr), ("values", .list .literal)]
      (element, values, ()) ⟨helement, hvalues, trivial⟩
    refine exact_of_choice rfl (hfields.tagged "InList") fun _ => ?_
    simp [Kind.exprVariants, Payload.Reads, Unique.exists_iff]
  join {left right carrier} hcarrier := by
    have hfields := Fields.agree_record [("left", .column), ("right", .column), ("expr", .expr)]
      (left, right, carrier, ()) ⟨exact_column left, exact_column right, hcarrier, trivial⟩
    refine exact_of_choice rfl (hfields.tagged "Join") fun _ => ?_
    simp [Kind.exprVariants, Payload.Reads, Unique.exists_iff]
  existsRow hquery := by
    refine exact_of_choice rfl (.tagged hquery "Exists") fun _ => ?_
    simp [Kind.exprVariants, Payload.Reads]
  query := exact_query

/-- Just the trees that spell a value are decoded as it, for every value of every kind. -/
theorem exact : (kind : Kind) → (value : kind.Carrier) → kind.Exact value
  | .text, content => exact_text content
  | .integer, number => exact_integer number
  | .byte, number => exact_byte number
  | .real, x => exact_real x
  | .timestamp, moment => exact_timestamp moment
  | .binaryOp, op => exact_binaryOp op
  | .unaryOp, op => exact_unaryOp op
  | .function, called => exact_function called
  | .direction, way => exact_direction way
  | .table, owner => exact_table owner
  | .column, c => exact_column c
  | .literal, value => exact_literal value
  | .expr, e => exact_steps.expr e
  | .projection, _ => exact_projection fun e _ => exact_steps.expr e
  | .sortKey, key => exact_sortKey (exact_steps.expr key.expression)
  | .sortRule, _ => exact_sortRule fun key _ => exact_steps.expr key.expression
  | .query, statement => exact_steps.statement statement
  | .list item, values => exact_list item values fun value _ => exact item value

end Kind

end SqlSelect
