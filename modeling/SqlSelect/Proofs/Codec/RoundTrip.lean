import SqlSelect.Proofs.Codec.Decode
import SqlSelect.Proofs.Codec.Encode

/-!
# Round trips through JSON text

The text that a value is encoded as is decoded as the canonical form of the value, which differs
from the value in the payloads of NaNs only. Values that were decoded have the one NaN that reading
produces, so they come back as they are.
-/

namespace SqlSelect

/-- The reals in a value of a kind, at any depth. -/
def Kind.reals : (kind : Kind) → kind.Carrier → List Binary64
  | .real, v => [v]
  | .literal, v => v.reals
  | .expr, v => v.reals
  | .projection, v => v.reals
  | .sortKey, v => v.reals
  | .sortRule, v => v.reals
  | .query, v => v.reals
  | .list item, vs => vs.flatMap item.reals
  | _, _ => []

/-! ## What is decoded is canonical -/

/-- A real that was read is no NaN but the one that reading produces. -/
theorem canonical_of_real {tree : Json} {x : Binary64} (h : Scalar.real tree = .ok x) :
    x.canonical = x := by
  unfold Scalar.real at h
  split at h
  · split at h
    · next numeral found hfound =>
      obtain rfl := Except.ok.inj h
      have hfinite := of_decide_eq_true (Binary64.isFinite_of_ofDecimal? hfound)
      have hnan : ¬ found.isNaN = true := by
        rw [Binary64.isNaN, decide_eq_true_eq]
        omega
      exact if_neg hnan
    · cases h
  · unfold Scalar.namedReal at h
    split at h
    · obtain rfl := Except.ok.inj h
      decide
    split at h
    · obtain rfl := Except.ok.inj h
      decide
    split at h
    · obtain rfl := Except.ok.inj h
      decide
    · cases h
  · cases h

/-- Every form makes canonical values out of canonical values. -/
theorem keeps_canonical (kind : Kind) :
    kind.form.Keeps (fun kind value => kind.canonical value = value)
      (fun value => kind.canonical value = value) := by
  cases kind with
  | real => exact fun tree x h => canonical_of_real h
  | literal =>
    simp [Kind.form, Kind.literalVariants, Form.Keeps, Payload.Keeps, Kind.canonical,
      Literal.canonical]
  | expr =>
    have hargs := each_eq_map Expr.canonicalEach rfl fun _ _ => rfl
    simp [Kind.form, Kind.exprVariants, Form.Keeps, Payload.Keeps, Fields.All, Kind.canonical,
      Expr.canonical, hargs]
  | projection =>
    simp [Kind.form, Kind.projectionVariants, Form.Keeps, Payload.Keeps, Fields.All, Kind.canonical,
      Projection.canonical]
  | sortKey =>
    intro values h
    simp only [Fields.All, Kind.canonical] at h
    simp only [Kind.canonical, SortKey.canonical, h]
  | sortRule =>
    intro values h
    simp only [Fields.All, Kind.canonical] at h
    simp only [Kind.canonical, SortRule.canonical_eq, h]
  | query =>
    intro values h
    simp only [Fields.All, Kind.canonical] at h
    simp only [Kind.canonical, Query.canonical_eq, h]
  | list item => exact fun values h => map_eq_self_iff.2 h
  | table | column => exact fun values _ => rfl
  | binaryOp => simp [Kind.form, Kind.binaryOpVariants, Form.Keeps, Payload.Keeps, Kind.canonical]
  | unaryOp | function | direction => simp [Kind.form, Form.Keeps, Payload.Keeps, Kind.canonical]
  | text | integer | byte | timestamp => exact fun _ _ _ => rfl

/-- A decoded value is its own canonical form. -/
theorem canonical_of_decodeText {kind : Kind} {text : List Char} {value : kind.Carrier}
    (h : decodeText kind text = .ok value) : kind.canonical value = value := by
  unfold decodeText at h
  obtain ⟨found, hfound, hend⟩ := bind_eq_ok h
  obtain rfl : found = value := eq_of_check hend
  exact good_of_decode keeps_canonical _ kind found hfound

/-- A value is its own canonical form exactly if the reals in it are. -/
theorem Kind.canonical_eq_iff {kind : Kind} (value : kind.Carrier) :
    kind.canonical value = value ↔ ∀ x ∈ kind.reals value, x.canonical = x := by
  have hexpr := canonical_steps.expr
  induction kind with
  | real => simp [Kind.canonical, Kind.reals]
  | literal => exact value.canonical_eq_iff
  | expr => exact hexpr value
  | projection => exact Projection.canonical_eq_iff fun e _ => hexpr e
  | sortKey => exact SortKey.canonical_eq_iff (hexpr value.expression)
  | sortRule => exact SortRule.canonical_eq_iff fun key _ => hexpr key.expression
  | query => exact canonical_steps.statement value
  | list item ih => exact map_canonical_eq_iff fun v _ => ih v
  | _ => simp [Kind.canonical, Kind.reals]

/-! ## The canonical form has the same text -/

/-- Every NaN is encoded alike. -/
theorem Binary64.encode_canonical (x : Binary64) : x.canonical.encode = x.encode := by
  unfold Binary64.canonical
  split
  · next hnan =>
    rw [Binary64.encode, Binary64.encode, if_pos hnan]
    rfl
  · rfl

theorem Literal.encode_canonical (value : Literal) : value.canonical.encode = value.encode := by
  cases value with
  | real x => rw [Literal.canonical, Literal.encode, Literal.encode, Binary64.encode_canonical]
  | _ => rfl

theorem Projection.encode_canonical {result : Projection}
    (h : ∀ e ∈ result.expression?, e.canonical.encode = e.encode) :
    result.canonical.encode = result.encode := by
  cases result with
  | expr expression =>
    rw [Projection.canonical, Projection.encode, Projection.encode, h expression rfl]
  | aliased expression label =>
    rw [Projection.canonical, Projection.encode, Projection.encode, h expression rfl]
  | wildcard table => rfl

theorem SortKey.encode_canonical {key : SortKey}
    (h : key.expression.canonical.encode = key.expression.encode) :
    key.canonical.encode = key.encode := by
  obtain ⟨expression, direction⟩ := key
  rw [SortKey.canonical, SortKey.encode, SortKey.encode, h]

theorem SortRule.encode_canonical {rule : SortRule}
    (h : ∀ key ∈ rule.orderings, key.expression.canonical.encode = key.expression.encode) :
    rule.canonical.encode = rule.encode := by
  have horderings := map_map_canonical fun key hkey => SortKey.encode_canonical (h key hkey)
  rw [SortRule.canonical_eq, SortRule.encode_eq, SortRule.encode_eq, horderings]

/-- The steps by which canonical trees are encoded alike. -/
theorem encode_steps :
    TreeInduction (fun e => e.canonical.encode = e.encode)
      (fun query => query.canonical.encode = query.encode) where
  binary hleft hright := by rw [Expr.canonical, Expr.encode, Expr.encode, hleft, hright]
  unary hoperand := by rw [Expr.canonical, Expr.encode, Expr.encode, hoperand]
  column c := rfl
  literal value := by rw [Expr.canonical, Expr.encode, Expr.encode, Literal.encode_canonical]
  call hargs := by
    rw [Expr.canonical_call, Expr.encode_call, Expr.encode_call, map_map_canonical hargs]
  inList helement := by
    rw [Expr.canonical, Expr.encode, Expr.encode, helement,
      map_map_canonical fun value _ => value.encode_canonical]
  join hcarrier := by rw [Expr.canonical, Expr.encode, Expr.encode, hcarrier]
  existsRow hquery := by rw [Expr.canonical, Expr.encode, Expr.encode, hquery]
  query {query} h := by
    have hresults := map_map_canonical fun result hresult =>
      Projection.encode_canonical fun e he => h e (mem_expressions_of_mem_results hresult he)
    have hpredicates := map_map_canonical fun e he =>
      h e (mem_expressions_of_mem_predicates he)
    have horder := map_map_canonical fun rule hrule =>
      SortRule.encode_canonical fun key hkey =>
        h key.expression (mem_expressions_of_mem_orderings hrule hkey)
    rw [Query.canonical_eq, Query.encode_eq, Query.encode_eq, hresults, hpredicates, horder]

/-- A value and its canonical form are encoded alike. -/
theorem encode_canonical (kind : Kind) (value : kind.Carrier) :
    encode kind (kind.canonical value) = encode kind value := by
  have hexpr := encode_steps.expr
  induction kind with
  | real => exact value.encode_canonical
  | literal => exact value.encode_canonical
  | expr => exact hexpr value
  | projection => exact Projection.encode_canonical fun e _ => hexpr e
  | sortKey => exact SortKey.encode_canonical (hexpr value.expression)
  | sortRule => exact SortRule.encode_canonical fun key _ => hexpr key.expression
  | query => exact encode_steps.statement value
  | list item ih => exact congrArg Json.array (map_map_canonical fun v _ => ih v)
  | _ => rfl

/-! ## Round trips -/

/-- The text of a value represents its canonical form. -/
theorem decodeText_of_represents {kind : Kind} {tree : Json} {value : kind.Carrier}
    (h : Represents kind tree value) : decodeText kind tree.render = .ok value := by
  rw [decodeText, Json.read_render h.writable]
  simp only [h.decoded]
  rfl

/-- The text of a value can be decoded, and what is decoded is the value with the one NaN that
reading produces in the place of every NaN. So it is the value itself exactly if the value has no
other NaN at any depth, it is encoded as the same text again, and a value that was decoded from any
text is decoded from its own text again. -/
theorem decodeText_encodeText (kind : Kind) (value : kind.Carrier) :
    decodeText kind (encodeText kind value) = .ok (kind.canonical value) ∧
      (decodeText kind (encodeText kind value) = .ok value ↔
        ∀ x ∈ kind.reals value, x.isNaN = true → x = .quietNaN) ∧
      encodeText kind (kind.canonical value) = encodeText kind value ∧
      ∀ text, decodeText kind text = .ok value →
        decodeText kind (encodeText kind value) = .ok value := by
  have hdecoded : decodeText kind (encodeText kind value) = .ok (kind.canonical value) :=
    decodeText_of_represents (represents_encode kind value)
  refine ⟨hdecoded, ?_, ?_, ?_⟩
  · calc decodeText kind (encodeText kind value) = .ok value
        ↔ kind.canonical value = value := by rw [hdecoded, Except.ok.injEq]
      _ ↔ ∀ x ∈ kind.reals value, x.canonical = x := Kind.canonical_eq_iff value
      _ ↔ ∀ x ∈ kind.reals value, x.isNaN = true → x = .quietNaN :=
          forall₂_congr fun x _ => Binary64.canonical_eq_iff
  · rw [encodeText, encode_canonical]
    rfl
  · intro text htext
    rw [hdecoded, canonical_of_decodeText htext]

/-- A NaN with a payload, in a list of literals in a subquery, comes back without the payload, and
what came back is stable. -/
theorem decodeText_encodeText_payload :
    decodeText .expr (encodeText .expr
        (.existsRow ⟨[], [.inList (.literal .null) [.real ⟨0x7ff8000000000001⟩]], []⟩)) =
      .ok (.existsRow ⟨[], [.inList (.literal .null) [.real .quietNaN]], []⟩) ∧
    decodeText .expr (encodeText .expr
        (.existsRow ⟨[], [.inList (.literal .null) [.real .quietNaN]], []⟩)) =
      .ok (.existsRow ⟨[], [.inList (.literal .null) [.real .quietNaN]], []⟩) := by
  have hpayload := (decodeText_encodeText .expr
    (.existsRow ⟨[], [.inList (.literal .null) [.real ⟨0x7ff8000000000001⟩]], []⟩)).1
  have hstable := (decodeText_encodeText .expr
    (.existsRow ⟨[], [.inList (.literal .null) [.real .quietNaN]], []⟩)).2.2.2
  exact ⟨hpayload, hstable _ hpayload⟩

end SqlSelect
