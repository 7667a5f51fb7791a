import SqlSelect.Codec.Decode
import SqlSelect.Codec.Encode
import SqlSelect.Query.Joins

/-!
# Runs of steps

A statement is built by a run of steps, each of which makes a new statement from the one before
it. One step writes the statement in JSON and reads it back; it is the only one that could fail.
-/

namespace SqlSelect.Query

/-- One step in building a statement. -/
inductive Step where
  | filter (predicate : Expr)
  | sorted (rule : SortRule)
  | sortedBy (rules : List SortRule)
  | foldJoins
  | nest (results : List Projection)
  | nestNot (results : List Projection)
  | appendResult (result : Projection)
  | clear (part : Part)
  /-- Written in JSON and read back. -/
  | reread

/-- The statement written in JSON and read back. -/
def reread (query : Query) : Except DecodeError Query :=
  decodeText .query (encodeText .query query)

/-- The statement after a step. -/
def apply (query : Query) : Step → Except DecodeError Query
  | .filter predicate => .ok (query.filter predicate)
  | .sorted rule => .ok (query.sorted rule)
  | .sortedBy rules => .ok (query.sortedBy rules)
  | .foldJoins => .ok query.foldJoins
  | .nest results => .ok (query.nest results)
  | .nestNot results => .ok (query.nestNot results)
  | .appendResult result => .ok (query.appendResult result)
  | .clear part => .ok (query.clear part)
  | .reread => query.reread

/-- The statements after each of the steps. -/
def run (query : Query) : List Step → Except DecodeError (List Query)
  | [] => .ok []
  | step :: rest =>
    (query.apply step).bind fun next => (next.run rest).map fun later => next :: later

end SqlSelect.Query
