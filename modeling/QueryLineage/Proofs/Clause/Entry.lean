import QueryLineage.Proofs.Clause.Declaration
import QueryLineage.Proofs.Tree.Entry

/-!
# Reading entries of a `WITH`

What an entry is read as, however it is written: its name, its columns, its query in parentheses and
the comment that belongs to it.
-/

namespace QueryLineage.EntryForm

open Text

variable (entry : EntryForm)

/-- What the entry is read as. A comment belongs to it only behind `AS`. -/
def parsed (stripComments : Bool) (body : Node) : CommonTable where
  name := entry.name.text
  columns := entry.columns.map PlainName.text
  body := body
  comment? :=
    if entry.behindAs && !stripComments then entry.comment?.map fun comment => trim comment.text
    else none

theorem kind_node (stripComments : Bool) (body : Node) :
    (entry.node stripComments body).kind = .identifier ∨
      (entry.node stripComments body).kind = .function := by
  rw [node, core]
  split
  · exact Or.inl rfl
  · split
    · exact Or.inl rfl
    · exact Or.inr rfl

theorem head_operand : (if entry.operand.kind = .function then CommonTable.ofCall entry.operand
    else (entry.operand.nameAndAlias.1, [], none)) =
      (entry.name.text, entry.columns.map PlainName.text, none) := by
  rw [operand, columnsGrouped]
  cases entry.columns with
  | nil =>
    have hname := congrArg Prod.fst (Node.nameAndAlias_name entry.name.text)
    rw [Node.kind_group, if_neg (by decide), hname]
    rfl
  | cons first others => exact CommonTable.ofCall_names entry.name.text entry.spaced first others

/-- The comment behind an entry is the last of its nodes. -/
theorem find?_comment_trailing :
    (entry.trailing.map Lexeme.toNode).reverse.find? Node.isComment =
      entry.comment?.map fun comment => .leaf .comment comment.text := by
  rw [trailing]
  cases entry.comment? <;> rfl

theorem not_filler_operand : entry.operand.isFiller .all = false := by
  rw [operand]
  cases entry.columns <;> rfl

/-- What stands before `AS` is read for the name and the columns, and a comment may stand behind the
query. -/
theorem ofNode_behindAs (children more : List Node) :
    CommonTable.ofNode (.group .identifier
        ([entry.operand, Node.spaceNode, Node.asNode, Node.spaceNode, .group .parenthesis children] ++
          more)) =
      .ok { name := entry.name.text
            columns := entry.columns.map PlainName.text
            body := .group .parenthesis children
            comment? := (more.reverse.find? Node.isComment).map fun comment => trim comment.text } := by
  have hoperand := entry.not_filler_operand
  have hcomment : entry.operand.isComment = false := by
    rw [Node.isFiller_all, Bool.or_eq_false_iff] at hoperand
    exact hoperand.2
  have hnone : [entry.operand, Node.spaceNode, Node.asNode, Node.spaceNode,
      .group .parenthesis children].reverse.find? Node.isComment = none := by
    change [Node.group .parenthesis children, Node.spaceNode, Node.asNode, Node.spaceNode,
      entry.operand].find? Node.isComment = none
    simp only [List.find?_cons, hcomment]
    rfl
  have hread := @CommonTable.ofNode_of_head (.group .identifier ([entry.operand, Node.spaceNode,
    Node.asNode, Node.spaceNode, .group .parenthesis children] ++ more)) _ _ _ _ _
    (by rw [Node.children_group, List.cons_append, List.dropWhile_cons_of_neg (by simp [hoperand])])
    entry.head_operand rfl
  rw [hread, Node.children_group, List.reverse_append, List.find?_append, hnone, Option.or_none]

theorem ofNode_called (children : List Node) :
    CommonTable.ofNode (.group .function (Node.nameNode entry.name.text ::
        (Node.gap entry.spaced ++ [.group .parenthesis children]))) =
      .ok { name := entry.name.text
            columns := []
            body := .group .parenthesis children
            comment? := none } := by
  have hkind : (Node.nameNode entry.name.text).kind = .name := rfl
  have hname : (Node.nameNode entry.name.text).nameAndAlias = (entry.name.text, none) := by
    rw [Node.nameAndAlias_of_kind_ne (by rw [hkind]; decide), Node.nameNode, Node.text_leaf,
      trim_eq_self entry.name.isPlain.isWord.isBlank]
  have hhead : (if (Node.nameNode entry.name.text).kind = .function then
      CommonTable.ofCall (Node.nameNode entry.name.text)
    else ((Node.nameNode entry.name.text).nameAndAlias.1, [], none)) = (entry.name.text, [], none) := by
    rw [hkind, if_neg (by decide), hname]
  cases entry.spaced with
  | false => exact CommonTable.ofNode_of_head rfl hhead rfl
  | true => exact CommonTable.ofNode_of_head rfl hhead rfl

/-- The entry is read with its name, its columns and its query. If it has columns, `AS` must not be
left out. -/
theorem ofNode_node (hform : entry.columns = [] ∨ entry.behindAs = true) (stripComments : Bool)
    (inner : List Node) :
    CommonTable.ofNode (entry.node stripComments (body stripComments inner)) =
      .ok (entry.parsed stripComments (body stripComments inner)) := by
  rw [node, core, parsed]
  cases hbehind : entry.behindAs with
  | false =>
    have hcolumns := hform.resolve_right (by simp [hbehind])
    rw [hcolumns]
    exact entry.ofNode_called _
  | true =>
    have hread := entry.ofNode_behindAs
      (Node.openingMark :: (Node.groupAll (Node.stripped stripComments inner) ++ [Node.closingMark]))
    cases stripComments with
    | true => exact hread []
    | false =>
      have htrailing := hread (entry.trailing.map Lexeme.toNode)
      rw [entry.find?_comment_trailing, Option.map_map] at htrailing
      exact htrailing

end QueryLineage.EntryForm
