import QueryLineage.Tree.Node

/-!
# Names and aliases

How an identifier is read as `name alias` or `name AS alias`. The name reaches as far as there is
no blank; comments inside it are passed over. Any other node is a name as a whole.
-/

namespace QueryLineage.Node

open Text

/-- Reads the rest of a name of which `name` has been read: the whole name, and what follows. -/
def nameFrom (name : String) : List Node → String × List Node
  | [] => (name, [])
  | node :: siblings =>
    if node.isWhitespace || (node.isComment && !name.isEmpty) then (name, node :: siblings)
    else nameFrom (if node.isComment then name else name ++ node.text) siblings

/-- Steps over filler, and over `AS` with the filler behind it. -/
def afterAs (siblings : List Node) : List Node :=
  match siblings.dropWhile (isFiller .all) with
  | [] => []
  | node :: rest => if node.isWord "AS" then rest.dropWhile (isFiller .all) else node :: rest

/-- The text of the siblings before the next filler or keyword, if there is any. -/
def aliasFrom? (siblings : List Node) : Option String :=
  let text := textAll (siblings.takeWhile fun node => !node.isFiller .all && !node.isKeyword)
  if text.isEmpty then none else some text

def nameAndAlias (node : Node) : String × Option String :=
  if node.kind = .identifier then
    let (name, rest) := nameFrom "" node.children
    (name, aliasFrom? (afterAs rest))
  else (trim node.text, none)

theorem nameAndAlias_of_kind_ne {node : Node} (h : node.kind ≠ .identifier) :
    node.nameAndAlias = (trim node.text, none) := by
  simp [nameAndAlias, h]

/-- The items of a list; any other node is a list of itself. -/
def items (node : Node) : List Node :=
  if node.kind = .identifierList then
    node.children.filter fun child => !child.isFiller .all && !child.isPunctuation
  else [node]

theorem items_of_kind_ne {node : Node} (h : node.kind ≠ .identifierList) : node.items = [node] := by
  simp [items, h]

end QueryLineage.Node
