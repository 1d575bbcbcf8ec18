import QueryLineage.Clause.Fault
import QueryLineage.Clause.Naming

/-!
# Common tables

The entries of a `WITH` clause. An entry is a name, perhaps with a list of columns in parentheses,
and a query in parentheses with or without `AS` before it; a comment in the entry belongs to the
table.
-/

namespace QueryLineage

open Text

/-- An entry of a `WITH` clause. -/
structure CommonTable where
  name : String
  columns : List String
  body : Node
  comment? : Option String

namespace CommonTable

def columnsIn (parentheses : Node) : List String :=
  let significant := fun node : Node => !node.isFiller .all && !node.isPunctuation
  ((parentheses.children.filter significant).flatMap Node.items).map fun node => trim node.text

/-- Reads a name with parentheses behind it. They hold the query itself or a list of columns. -/
def ofCall (call : Node) : String × List String × Option Node :=
  let isParenthesis := fun node : Node => node.kind == .parenthesis
  let parts := call.children.takeWhile fun node => !isParenthesis node
  let name := Node.textAll (parts.filter fun node => !node.isFiller .all)
  match call.children.find? isParenthesis with
  | none => (name, [], none)
  | some parentheses =>
    if parentheses.isSubselect then (name, [], some parentheses)
    else (name, columnsIn parentheses, none)

def ofNode (node : Node) : Except LineageError CommonTable :=
  match node.children.dropWhile (Node.isFiller .all) with
  | [] => .error (.malformedAt .emptyEntry node)
  | head :: rest =>
    let (name, columns, body?) :=
      if head.kind = .function then ofCall head else (head.nameAndAlias.1, [], none)
    match body?.or (rest.find? fun child => child.kind == .parenthesis) with
    | none => .error (.malformedAt .entryWithoutQuery node)
    | some body =>
      let comment? := node.children.reverse.find? Node.isComment
      .ok { name, columns, body, comment? := comment?.map fun comment => trim comment.text }

end CommonTable

end QueryLineage
