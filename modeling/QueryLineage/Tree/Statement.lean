import QueryLineage.Tree.Node

/-!
# Statements

A text is a sequence of statements, each with the semicolon that ends it. Comments may be taken
out first; a blank stays in the place of each.
-/

namespace QueryLineage.Node

/-- What stays in the place of a comment: a line break if the comment holds one, else a space. -/
def commentFiller (text : String) : Node :=
  leaf .whitespace (if text.toList.contains '\n' then "\n" else " ")

mutual

/-- Takes out the comments of the node, looking into parentheses only. -/
def withoutComments : Node → Node
  | leaf .comment text => commentFiller text
  | leaf .parenthesis _ => group .parenthesis []
  | leaf kind text => leaf kind text
  | group .comment children => commentFiller (textAll children)
  | group .parenthesis children => group .parenthesis (withoutCommentsAll children)
  | group kind children => group kind children

def withoutCommentsAll : List Node → List Node
  | [] => []
  | node :: siblings => node.withoutComments :: withoutCommentsAll siblings

end

@[simp] theorem withoutCommentsAll_nil : withoutCommentsAll [] = [] := by
  simp [withoutCommentsAll]

@[simp] theorem withoutCommentsAll_cons (node : Node) (siblings : List Node) :
    withoutCommentsAll (node :: siblings) =
      node.withoutComments :: withoutCommentsAll siblings := by
  simp [withoutCommentsAll]

theorem withoutCommentsAll_eq_map (nodes : List Node) :
    withoutCommentsAll nodes = nodes.map withoutComments := by
  induction nodes with
  | nil => simp
  | cons node nodes ih => simp [ih]

/-- Cuts the siblings behind every semicolon. The last piece has none and may be empty. -/
def cutAtSemicolons : List Node → List (List Node)
  | [] => [[]]
  | node :: siblings =>
    if node.isMark ";" then [node] :: cutAtSemicolons siblings
    else match cutAtSemicolons siblings with
      | [] => [[node]]
      | piece :: pieces => (node :: piece) :: pieces

/-- Whether the node is more than filler or a semicolon. -/
def isSubstantial (node : Node) : Bool :=
  !node.isFiller .all && !node.isMark ";"

/-- The statements among the siblings, each with its semicolon. -/
def splitStatements (siblings : List Node) : List (List Node) :=
  (cutAtSemicolons siblings).filter (·.any isSubstantial)

theorem flatten_cutAtSemicolons (siblings : List Node) :
    (cutAtSemicolons siblings).flatten = siblings := by
  induction siblings with
  | nil => rfl
  | cons node siblings ih =>
    rw [cutAtSemicolons]
    split
    · simp [ih]
    · split
      · next h => simp [h] at ih; simp [ih]
      · next h => simpa [h] using ih

end QueryLineage.Node
