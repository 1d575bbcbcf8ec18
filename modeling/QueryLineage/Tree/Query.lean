import QueryLineage.Lexeme.Rule
import QueryLineage.Tree.Level
import QueryLineage.Tree.Parenthesis
import QueryLineage.Tree.Statement

/-!
# Reading queries

From the text of one or more statements to their trees.
-/

namespace QueryLineage.Node

/-- The statement that siblings make up. -/
def statement (siblings : List Node) : Node :=
  group .statement (groupAll siblings)

/-- The statements of a text, without its comments if `stripComments` says so. -/
def statementsOfText (sql : String) (stripComments : Bool) : Except ParseError (List Node) := do
  let lexemes ← Lexeme.ofText sql
  let nodes ← groupParentheses sql (lexemes.map Lexeme.toNode)
  let nodes := if stripComments then withoutCommentsAll nodes else nodes
  pure ((splitStatements nodes).map statement)

end QueryLineage.Node
