import QueryLineage.Lexeme.Fault
import QueryLineage.Tree.Node

/-!
# Parentheses

A closing parenthesis belongs to the nearest opening one that is still open, and both together
with what stands between them become a group. A closing parenthesis without a partner stays as it
is; an opening one without a partner makes the text unreadable.
-/

namespace QueryLineage

open Text

/-- A parenthesis that has not been closed yet: the siblings before it, and the byte where it
stands. -/
structure OpenParenthesis where
  before : List Node
  start : Nat

namespace Node

/-- Closes parentheses from byte `offset` on, where `opened` are those that are still open, the
innermost first, and `current` are the siblings read since that one. -/
def closeParentheses (sql : String) (offset : Nat) (opened : List OpenParenthesis)
    (current : List Node) : List Node → Except ParseError (List Node)
  | [] =>
    match opened with
    | [] => .ok current
    | innermost :: _ =>
      .error (.locate .unclosedParenthesis innermost.start (innermost.start + 1) sql)
  | node :: nodes =>
    let next := offset + byteLength node.text.toList
    if node.isMark "(" then closeParentheses sql next (⟨current, offset⟩ :: opened) [node] nodes
    else
      match opened with
      | [] => closeParentheses sql next [] (current ++ [node]) nodes
      | innermost :: outer =>
        if node.isMark ")" then
          let closed := group .parenthesis (current ++ [node])
          closeParentheses sql next outer (innermost.before ++ [closed]) nodes
        else closeParentheses sql next (innermost :: outer) (current ++ [node]) nodes

/-- Groups what stands between parentheses. The text `sql` serves to show where a parenthesis is
missing. -/
def groupParentheses (sql : String) (nodes : List Node) : Except ParseError (List Node) :=
  closeParentheses sql 0 [] [] nodes

end Node

end QueryLineage
