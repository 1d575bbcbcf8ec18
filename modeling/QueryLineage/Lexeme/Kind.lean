/-!
# Kinds

Every part of a query has a kind. Nine kinds belong to the smallest parts, which are read from the
text; the other nine belong to the groups that are built from them.
-/

namespace QueryLineage

/-- The keywords that begin a statement, the one that begins a list of common tables, the rest. -/
inductive KeywordClass where
  | dml
  | cte
  | generic
  deriving DecidableEq, Repr

inductive Kind where
  | whitespace
  | comment
  | punctuation
  | keyword (keywordClass : KeywordClass)
  | name
  | wildcard
  | literal
  | operator
  | comparisonOperator
  | statement
  | identifier
  | identifierList
  | parenthesis
  | whereClause
  | comparison
  | function
  | operation
  | caseBlock
  deriving DecidableEq, Repr

namespace Kind

def isGroup : Kind → Bool
  | statement | identifier | identifierList | parenthesis | whereClause | comparison | function
  | operation | caseBlock => true
  | _ => false

/-- The kinds that can stand on either side of an operator, a comparison or an alias. -/
def isOperand : Kind → Bool
  | name | identifier | literal | function | parenthesis | operation | caseBlock => true
  | _ => false

def isKeyword : Kind → Bool
  | keyword _ => true
  | _ => false

theorem not_isOperand_of_isKeyword {kind : Kind} (h : kind.isKeyword = true) :
    kind.isOperand = false := by
  cases kind <;> simp_all [isKeyword, isOperand]

end Kind

end QueryLineage
