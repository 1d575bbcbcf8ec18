import QueryLineage.Lexeme.Fault
import QueryLineage.Tree.Node

/-!
# Errors of lineage

A query may be unreadable, it may be readable but malformed in one of its clauses, or it may give
a common table fewer columns than the table declares.
-/

namespace QueryLineage

open Text

/-- What is malformed in a query that can be read. -/
inductive ClauseFault where
  | comparisonWithoutOperator
  | comparisonWithoutOperand
  | emptyEntry
  | entryWithoutQuery
  | joinWithoutCondition
  | other (message : String)
  deriving DecidableEq, Repr

def ClauseFault.message : ClauseFault → String
  | comparisonWithoutOperator => "Comparison without an operator"
  | comparisonWithoutOperand => "Comparison without a left operand"
  | emptyEntry => "Empty WITH entry"
  | entryWithoutQuery => "WITH entry without a parenthesized query"
  | joinWithoutCondition => "ON without a join condition"
  | other message => message

inductive LineageError where
  | parse (error : ParseError)
  | malformed (fault : ClauseFault) (text : String)
  | aliasCountMismatch (table : String) (declared produced : Nat)
  deriving DecidableEq, Repr

namespace LineageError

def malformedAt (fault : ClauseFault) (node : Node) : LineageError :=
  malformed fault (trim node.text)

def render : LineageError → String
  | parse error => error.render
  | malformed fault text => s!"Malformed input: {fault.message}\n  near '{text}'"
  | aliasCountMismatch table declared produced =>
    s!"Table '{table}' declares {declared} column aliases but its query produces {produced}"

end LineageError

end QueryLineage
