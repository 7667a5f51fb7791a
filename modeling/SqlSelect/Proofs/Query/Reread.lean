import SqlSelect.Proofs.Codec.RoundTrip
import SqlSelect.Proofs.Query.Canonical
import SqlSelect.Query.Step

/-!
# Reading a statement back along a run

To write a statement in JSON and read it back gives its canonical form. Every other step leads from
canonical forms to canonical forms, so a run in which statements are read back at any places keeps
pace with the run without these steps: at each stage the two statements have the same canonical form,
and with it the same text, tables and verdict. A step that reads back changes the statement exactly
if there is a NaN in it whose payload gets lost.
-/

namespace SqlSelect

namespace Query

namespace Step

/-- Whether the step writes the statement and reads it back. -/
def rereads : Step → Bool
  | reread => true
  | _ => false

/-- The step with canonical parts. -/
def canonical : Step → Step
  | filter predicate => filter predicate.canonical
  | sorted rule => sorted rule.canonical
  | sortedBy rules => sortedBy (rules.map SortRule.canonical)
  | foldJoins => foldJoins
  | nest results => nest (results.map Projection.canonical)
  | nestNot results => nestNot (results.map Projection.canonical)
  | appendResult result => appendResult result.canonical
  | clear part => clear part
  | reread => reread

end Step

/-! ## One step -/

/-- Reading back gives the canonical form. -/
theorem reread_eq (query : Query) : query.reread = .ok query.canonical :=
  decodeText_of_represents (represents_encode .query query)

/-- A canonical form is its own canonical form. -/
theorem canonical_canonical (query : Query) : query.canonical.canonical = query.canonical :=
  canonical_of_decodeText query.reread_eq

/-- A step never fails, and the same step on canonical forms leads to the canonical form. -/
theorem apply_canonical (query : Query) (step : Step) :
    ∃ next : Query, query.apply step = .ok next ∧
      query.canonical.apply step.canonical = .ok next.canonical := by
  cases step with
  | filter predicate => exact ⟨_, rfl, congrArg Except.ok (query.canonical_filter predicate).symm⟩
  | sorted rule => exact ⟨_, rfl, congrArg Except.ok (query.canonical_sortedBy [rule]).symm⟩
  | sortedBy rules => exact ⟨_, rfl, congrArg Except.ok (query.canonical_sortedBy rules).symm⟩
  | foldJoins => exact ⟨_, rfl, congrArg Except.ok query.canonical_foldJoins.symm⟩
  | nest results => exact ⟨_, rfl, congrArg Except.ok (query.canonical_nest results).symm⟩
  | nestNot results => exact ⟨_, rfl, congrArg Except.ok (query.canonical_nestNot results).symm⟩
  | appendResult result =>
    exact ⟨_, rfl, congrArg Except.ok (query.canonical_appendResult result).symm⟩
  | clear part => exact ⟨_, rfl, congrArg Except.ok (query.canonical_clear part).symm⟩
  | reread => exact ⟨_, query.reread_eq, query.canonical.reread_eq⟩

/-- From statements with the same canonical form a step leads to statements with the same one. -/
theorem apply_congr {left right : Query} (h : left.canonical = right.canonical) (step : Step) :
    ∃ leftNext rightNext : Query, left.apply step = .ok leftNext ∧
      right.apply step = .ok rightNext ∧ leftNext.canonical = rightNext.canonical := by
  obtain ⟨leftNext, hleft, hleftCanonical⟩ := left.apply_canonical step
  obtain ⟨rightNext, hright, hrightCanonical⟩ := right.apply_canonical step
  rw [h, hrightCanonical] at hleftCanonical
  exact ⟨leftNext, rightNext, hleft, hright, (Except.ok.inj hleftCanonical).symm⟩

/-- Reading back changes a statement exactly if a NaN in it is not the one that reading produces. -/
theorem canonical_ne_iff {query : Query} :
    query.canonical ≠ query ↔ ∃ x ∈ query.reals, x.isNaN = true ∧ x ≠ .quietNaN := by
  have hsame : query.canonical = query ↔ ∀ x ∈ query.reals, x.isNaN = true → x = .quietNaN := by
    calc query.canonical = query
        ↔ ∀ x ∈ query.reals, x.canonical = x := canonical_steps.statement query
      _ ↔ ∀ x ∈ query.reals, x.isNaN = true → x = .quietNaN :=
          forall₂_congr fun x _ => Binary64.canonical_eq_iff
  rw [Ne, hsame]
  push Not
  rfl

/-! ## Runs -/

/-- The statement at a stage of a run comes from the one before it by the step of the stage. -/
theorem apply_of_run {query : Query} {steps : List Step} {states : List Query}
    (h : query.run steps = .ok states) {n : Nat} {step : Step} (hstep : steps[n]? = some step) :
    ∃ state next : Query, (query :: states)[n]? = some state ∧
      (query :: states)[n + 1]? = some next ∧ state.apply step = .ok next := by
  induction steps generalizing query states n with
  | nil => cases hstep
  | cons first rest ih =>
    obtain ⟨next, hnext, h⟩ := bind_eq_ok h
    obtain ⟨later, hlater, rfl⟩ := map_eq_ok h
    cases n with
    | zero =>
      obtain rfl := Option.some.inj hstep
      exact ⟨query, next, rfl, rfl, hnext⟩
    | succ n => exact ih hlater hstep

/-- A run with steps that read back keeps pace with the run without them, from statements with the same
canonical form on. -/
theorem run_keeps_pace {left right : Query} (h : left.canonical = right.canonical)
    (steps : List Step) :
    ∃ often plain : List Query, left.run steps = .ok often ∧
      right.run (steps.filter fun step => !step.rereads) = .ok plain ∧
      ∀ n ≤ steps.length, ∃ state other : Query, (left :: often)[n]? = some state ∧
        (right :: plain)[(steps.take n).countP fun step => !step.rereads]? = some other ∧
        state.canonical = other.canonical := by
  -- A step that reads back is taken by the first run only, so both statements vary.
  induction steps generalizing left right with
  | nil =>
    refine ⟨[], [], rfl, rfl, fun n hn => ?_⟩
    obtain rfl := Nat.le_zero.1 hn
    exact ⟨left, right, rfl, rfl, h⟩
  | cons step rest ih =>
    cases hrereads : step.rereads with
    | true =>
      cases step with
      | reread =>
        have hcanonical : left.canonical.canonical = right.canonical := by
          rw [canonical_canonical, h]
        obtain ⟨often, plain, hoften, hplain, hpace⟩ := ih hcanonical
        refine ⟨left.canonical :: often, plain, ?_, hplain, fun n hn => ?_⟩
        · rw [run, apply, reread_eq]
          exact congrArg (Except.map _) hoften
        · cases n with
          | zero => exact ⟨left, right, rfl, rfl, h⟩
          | succ n => exact hpace n (Nat.le_of_succ_le_succ hn)
      | _ => cases hrereads
    | false =>
      obtain ⟨leftNext, rightNext, hleft, hright, hnext⟩ := apply_congr h step
      obtain ⟨often, plain, hoften, hplain, hpace⟩ := ih hnext
      refine ⟨leftNext :: often, rightNext :: plain, ?_, ?_, fun n hn => ?_⟩
      · rw [run, hleft]
        exact congrArg (Except.map _) hoften
      · rw [List.filter_cons_of_pos (by simp [hrereads]), run, hright]
        exact congrArg (Except.map _) hplain
      · cases n with
        | zero => exact ⟨left, right, rfl, rfl, h⟩
        | succ n =>
          rw [List.take_succ_cons, List.countP_cons_of_pos (by simp [hrereads])]
          exact hpace n (Nat.le_of_succ_le_succ hn)

/-- Statements that are equal up to the payloads of NaNs, with what can be seen of both: the text, the
tables, the verdict and the numbers of items, conditions and sort rules. -/
structure SameUpToPayloads (left right : Query) : Prop where
  canonical : left.canonical = right.canonical
  text : sql left = sql right
  tables : left.tables = right.tables
  verdict : left.validate = right.validate
  results : left.results.length = right.results.length
  predicates : left.predicates.length = right.predicates.length
  order : left.order.length = right.order.length

/-- All that can be seen of a statement can be seen of its canonical form. -/
theorem SameUpToPayloads.of_canonical {left right : Query}
    (h : left.canonical = right.canonical) : SameUpToPayloads left right where
  canonical := h
  text := by rw [← left.sql_canonical, h, right.sql_canonical]
  tables := by rw [← left.tables_canonical, h, right.tables_canonical]
  verdict := by rw [← left.validate_canonical, h, right.validate_canonical]
  results := by simpa using congrArg (fun query => query.results.length) h
  predicates := by simpa using congrArg (fun query => query.predicates.length) h
  order := by simpa using congrArg (fun query => query.order.length) h

/-- Writing a statement and reading it back at any places of a run shows in nothing but the payloads of
NaNs. The run with these steps and the run without them both succeed, and at every stage the statement
of the first is the one of the second after as many other steps, up to these payloads. A step that
reads back changes the statement exactly if some NaN in it, at any depth, is not the one that reading
produces. -/
theorem rereading_is_invisible (query : Query) (steps : List Step) :
    ∃ often plain : List Query, query.run steps = .ok often ∧
      query.run (steps.filter fun step => !step.rereads) = .ok plain ∧
      (∀ n ≤ steps.length, ∃ state other : Query, (query :: often)[n]? = some state ∧
        (query :: plain)[(steps.take n).countP fun step => !step.rereads]? = some other ∧
        SameUpToPayloads state other) ∧
      ∀ n, steps[n]? = some .reread → ∃ state next : Query, (query :: often)[n]? = some state ∧
        (query :: often)[n + 1]? = some next ∧
        (next ≠ state ↔ ∃ x ∈ state.reals, x.isNaN = true ∧ x ≠ .quietNaN) := by
  obtain ⟨often, plain, hoften, hplain, hpace⟩ := run_keeps_pace (Eq.refl query.canonical) steps
  refine ⟨often, plain, hoften, hplain, fun n hn => ?_, fun n hstep => ?_⟩
  · obtain ⟨state, other, hstate, hother, hsame⟩ := hpace n hn
    exact ⟨state, other, hstate, hother, .of_canonical hsame⟩
  · obtain ⟨state, next, hstate, hnext, happly⟩ := apply_of_run hoften hstep
    obtain rfl : state.canonical = next := Except.ok.inj (state.reread_eq.symm.trans happly)
    exact ⟨state, state.canonical, hstate, hnext, canonical_ne_iff⟩

/-- A condition with a NaN of another payload, read back and then nested: reading back changes the
statement, and at the end of the run this cannot be seen. -/
theorem rereading_loses_payload :
    let start : Query := select [.wildcard ⟨"t"⟩]
    let condition : Expr := .inList (.column ⟨⟨"t"⟩, "a"⟩) [.real ⟨0x7ff8000000000001⟩]
    let steps : List Step := [.filter condition, .reread, .nestNot [.wildcard ⟨"u"⟩]]
    ∃ often plain : List Query, start.run steps = .ok often ∧
      start.run [.filter condition, .nestNot [.wildcard ⟨"u"⟩]] = .ok plain ∧
      3 ≤ steps.length ∧ steps[1]? = some .reread ∧
      (∃ state other : Query, often[2]? = some state ∧ plain[1]? = some other ∧
        SameUpToPayloads state other) ∧
      ∃ next : Query, often[0]? = some (start.filter condition) ∧ often[1]? = some next ∧
        next ≠ start.filter condition := by
  intro start condition steps
  have hreread : steps[1]? = some .reread := rfl
  have hnan : ∃ x ∈ (start.filter condition).reals, x.isNaN = true ∧ x ≠ .quietNaN :=
    ⟨⟨0x7ff8000000000001⟩, List.mem_singleton_self _, by decide, by decide⟩
  obtain ⟨often, plain, hoften, hplain, hpace, hchanges⟩ := rereading_is_invisible start steps
  obtain ⟨state, other, hstate, hother, hsame⟩ := hpace 3 (Nat.le_refl _)
  obtain ⟨before, next, hbefore, hnext, hiff⟩ := hchanges 1 hreread
  have hfirst : often[0]? = some (start.filter condition) := by
    obtain ⟨_, _, hzero, hone, happly⟩ := apply_of_run hoften (n := 0) rfl
    obtain rfl := Option.some.inj hzero
    rw [Except.ok.inj happly]
    exact hone
  obtain rfl : start.filter condition = before := Option.some.inj (hfirst.symm.trans hbefore)
  exact ⟨often, plain, hoften, hplain, Nat.le_refl _, hreread, ⟨state, other, hstate, hother, hsame⟩,
    next, hfirst, hnext, hiff.2 hnan⟩

end Query

end SqlSelect
