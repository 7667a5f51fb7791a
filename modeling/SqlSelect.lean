import SqlSelect.Query.Step
import SqlSelect.Query.Validity
import SqlSelect.Sql.Text
import SqlSelect.Tree.Canonical
import SqlSelect.Tree.HashFeed
import SqlSelect.Proofs.Tree.Induction
import SqlSelect.Proofs.Sql.Reading
import SqlSelect.Proofs.Binary64.ReadBack
import SqlSelect.Proofs.Sql.Tree
import SqlSelect.Proofs.Sql.Statement
import SqlSelect.Proofs.Sql.Outline
import SqlSelect.Proofs.Sql.Unique
import SqlSelect.Proofs.Sql.Alike
import SqlSelect.Proofs.Sql.Grammar
import SqlSelect.Proofs.Codec.RoundTrip
import SqlSelect.Proofs.Query.Joins
import SqlSelect.Proofs.Query.Validity
import SqlSelect.Proofs.Tree.Hole
import SqlSelect.Proofs.Query.Subquery
import SqlSelect.Proofs.Query.Build
import SqlSelect.Proofs.Sql.From
import SqlSelect.Proofs.Query.Interleaving
import SqlSelect.Proofs.Query.NullComparison
import SqlSelect.Proofs.Query.Canonical
import SqlSelect.Proofs.Query.Reread
import SqlSelect.Proofs.Binary64.Nearest
import SqlSelect.Proofs.Calendar.Syntax
import SqlSelect.Proofs.Codec.Spelling
import SqlSelect.Proofs.Codec.Shape
import SqlSelect.Proofs.Codec.Exact
import SqlSelect.Proofs.Codec.Accepted
import SqlSelect.Proofs.Tree.HashFeed
import SqlSelect.Proofs.Query.FirstSeen
import SqlSelect.Proofs.Sql.NullText
import SqlSelect.Proofs.Codec.RealTexts
import SqlSelect.Proofs.Calendar.Order
import SqlSelect.Proofs.Query.Chain
import SqlSelect.Proofs.Codec.InvalidReal
