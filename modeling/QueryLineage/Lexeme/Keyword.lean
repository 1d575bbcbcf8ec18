import QueryLineage.Text.Upper
import QueryLineage.Lexeme.Kind

/-!
# Keywords

The reserved words, all written here in upper case. A word of a query is compared after its own
conversion to upper case, so that letters outside ASCII whose upper case is an ASCII letter take
part in it.
-/

namespace QueryLineage.Keyword

open Text

/-- The words that begin a statement. -/
def dmlWords : List String :=
  ["SELECT", "INSERT", "UPDATE", "DELETE", "MERGE", "UPSERT"]

/-- The word that begins a list of common tables. -/
def cteWords : List String :=
  ["WITH"]

def genericWords : List String :=
  ["FROM", "WHERE", "AS", "ON", "AND", "OR", "NOT", "IN", "IS", "BETWEEN", "EXISTS", "JOIN",
    "HAVING", "LIMIT", "OFFSET", "UNION", "INTERSECT", "EXCEPT", "MINUS", "ALL", "ANY", "SOME",
    "DISTINCT", "INTO", "VALUES", "SET", "TABLE", "VIEW", "CREATE", "DROP", "ALTER", "TRUNCATE",
    "CASE", "WHEN", "THEN", "ELSE", "END", "ASC", "DESC", "USING", "RECURSIVE", "OVER", "WINDOW",
    "QUALIFY", "LATERAL", "RETURNING", "MATERIALIZED", "ESCAPE", "FETCH", "TEMPORARY", "TEMP"]

/-- The words that stand for values. -/
def literalWords : List String :=
  ["TRUE", "FALSE", "NULL"]

/-- The keywords that close a `WHERE` clause. -/
def whereTerminators : List String :=
  ["GROUP BY", "ORDER BY", "HAVING", "LIMIT", "OFFSET", "UNION", "UNION ALL", "INTERSECT",
    "EXCEPT", "MINUS", "WINDOW", "QUALIFY", "RETURNING", "FETCH"]

def class? (word : String) : Option KeywordClass :=
  let word := upper word
  if dmlWords.contains word then some .dml
  else if cteWords.contains word then some .cte
  else if genericWords.contains word then some .generic
  else none

def isLiteral (word : String) : Bool :=
  literalWords.contains (upper word)

theorem class?_congr {v w : String} (h : upper v = upper w) : class? v = class? w := by
  simp [class?, h]

theorem isLiteral_congr {v w : String} (h : upper v = upper w) : isLiteral v = isLiteral w := by
  simp [isLiteral, h]

end QueryLineage.Keyword
