import QueryLineage.Analysis.Basic
import QueryLineage.Graph.Json
import QueryLineage.Graph.Report
import QueryLineage.Proofs.Analysis.Acts
import QueryLineage.Proofs.Analysis.Appends
import QueryLineage.Proofs.Analysis.Awaiting
import QueryLineage.Proofs.Analysis.Batch
import QueryLineage.Proofs.Analysis.Comments
import QueryLineage.Proofs.Analysis.Compound
import QueryLineage.Proofs.Analysis.Conditions
import QueryLineage.Proofs.Analysis.Declaration
import QueryLineage.Proofs.Analysis.Distinct
import QueryLineage.Proofs.Analysis.Embedding
import QueryLineage.Proofs.Analysis.Entry
import QueryLineage.Proofs.Analysis.JoinChain
import QueryLineage.Proofs.Analysis.Joins
import QueryLineage.Proofs.Analysis.Lookup
import QueryLineage.Proofs.Analysis.Mentions
import QueryLineage.Proofs.Analysis.OwnText
import QueryLineage.Proofs.Analysis.SelectFrom
import QueryLineage.Proofs.Analysis.SelectRows
import QueryLineage.Proofs.Analysis.Sources
import QueryLineage.Proofs.Clause.Expression
import QueryLineage.Proofs.Graph.Merging
import QueryLineage.Proofs.Lexeme.Refused
import QueryLineage.Proofs.Lexeme.WholeWord
import QueryLineage.Proofs.Tree.Cursor
import QueryLineage.Proofs.Tree.DottedKeyword
import QueryLineage.Proofs.Tree.LetterCase
import QueryLineage.Proofs.Tree.Matching
import QueryLineage.Proofs.Tree.Stripped
import QueryLineage.Tree.Cursor
