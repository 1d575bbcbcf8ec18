import Mathlib.Data.List.Forall2
import QueryLineage.Proofs.Tree.Shape
import QueryLineage.Proofs.Tree.Single

/-!
# Trees with and without comments

A text is read with its comments if and only if it is read without them, and a statement of the one
reading belongs to each statement of the other. The two trees may be grouped differently, since a
comment can stand where a blank cannot, so they are compared by their fringes.
-/

namespace QueryLineage

open Text

theorem Lexeme.filter_isFiller_withoutComment (lexemes : List Lexeme) :
    (lexemes.map withoutComment).filter (fun lexeme => !lexeme.isFiller) =
      lexemes.filter fun lexeme => !lexeme.isFiller := by
  induction lexemes with
  | nil => rfl
  | cons lexeme lexemes ih =>
    rw [List.map_cons, List.filter_cons, List.filter_cons, ih, isFiller_withoutComment]
    split
    · next hfiller =>
      have hkind : lexeme.kind ≠ .comment := by
        intro hkind
        simp [isFiller, hkind] at hfiller
      rw [withoutComment, if_neg hkind]
    · rfl

theorem Lexeme.kind_withoutComment_ne (lexeme : Lexeme) :
    lexeme.withoutComment.kind ≠ .comment := by
  unfold withoutComment
  split
  · simp
  · assumption

namespace Node

/-- No node is a comment, the node itself and those at any depth below it. -/
def Uncommented (node : Node) : Prop :=
  Everywhere (fun node => node.isComment = false) node

/-- A comment is never a group, so none is left where none is among the lexemes. -/
theorem Everywhere.uncommented {node : Node} (h : Everywhere Shaped node)
    (hfringe : ∀ lexeme ∈ node.fringe, lexeme.kind ≠ .comment) : node.Uncommented := by
  induction h with
  | @intro node hshaped _ ih =>
    cases node with
    | leaf kind text =>
      have hkind : kind ≠ .comment := hfringe ⟨kind, text⟩ (by simp)
      exact .leaf (beq_eq_false_iff_ne.2 hkind)
    | group kind children =>
      have hkind : kind ≠ .comment := by
        rintro rfl
        cases hshaped
      refine .group (beq_eq_false_iff_ne.2 hkind) fun child hchild =>
        ih child hchild fun lexeme hlexeme => hfringe lexeme ?_
      rw [fringe_group _ (List.ne_nil_of_mem hchild)]
      exact mem_fringeAll_of_mem hchild hlexeme

/-- What one tree is to another that has been read from the same lexemes with their comments. -/
structure Strips (tree stripped : Node) : Prop where
  -- at the place of each comment stands a blank, which is a line break if the comment had one
  fringe : stripped.fringe = tree.fringe.map fun lexeme =>
    if lexeme.kind = .comment then
      ⟨.whitespace, if lexeme.text.toList.contains '\n' then "\n" else " "⟩
    else lexeme
  significant : stripped.fringe.filter (fun lexeme => !lexeme.isFiller) =
    tree.fringe.filter fun lexeme => !lexeme.isFiller
  uncommented : stripped.Uncommented

/-- The trees of two rows of statements belong together if the lexemes of the rows do. -/
theorem forall₂_strips {plain stripped : List (List Node)}
    (hfringe : (stripped.map statement).map fringe =
      ((plain.map statement).map fringe).map (·.map Lexeme.withoutComment))
    (hshaped : ∀ piece ∈ stripped, Everywhere Shaped (statement piece)) :
    List.Forall₂ Strips (plain.map statement) (stripped.map statement) := by
  induction stripped generalizing plain with
  | nil =>
    cases plain with
    | nil => exact .nil
    | cons _ _ => simp at hfringe
  | cons piece stripped ih =>
    cases plain with
    | nil => simp at hfringe
    | cons other plain =>
      simp only [List.map_cons, List.cons.injEq] at hfringe
      obtain ⟨hpiece, hrest⟩ := hfringe
      refine .cons ⟨hpiece, ?_, ?_⟩ (ih hrest fun p hp => hshaped p (List.mem_cons_of_mem _ hp))
      · rw [hpiece, Lexeme.filter_isFiller_withoutComment]
      · apply (hshaped piece List.mem_cons_self).uncommented
        rw [hpiece]
        intro lexeme hlexeme
        obtain ⟨commented, -, rfl⟩ := List.mem_map.1 hlexeme
        exact commented.kind_withoutComment_ne

theorem shaped_statement {nodes piece : List Node} (h : ∀ node ∈ nodes, Bracketed node)
    (hpiece : piece ∈ splitStatements nodes) : Everywhere Shaped (statement piece) := by
  have hcut := (List.mem_filter.1 hpiece).1
  have hpieces : ∀ node ∈ piece, Bracketed node :=
    fun node hnode => h node (mem_of_mem_cutAtSemicolons hcut hnode)
  exact .group (Shape.statement (not_where_of_mem_groupAll piece)
    (not_semicolon_of_mem_dropLast_groupAll hpieces (not_semicolon_of_mem_dropLast hcut)))
    (shaped_groupAll hpieces)

/-- Reading a text without its comments touches nothing but the comments: it fails as reading it
with them does, and otherwise each statement is the same but for its blanks and comments. What is
grouped into what may differ, so the argument is about the pieces before they are grouped: they are
cut at the same semicolons, the same of them are empty, and grouping keeps the fringe of each. -/
theorem statementsOfText_stripComments (sql : String) :
    (∃ error, statementsOfText sql false = .error error ∧
      statementsOfText sql true = .error error) ∨
    ∃ plain stripped, statementsOfText sql false = .ok plain ∧
      statementsOfText sql true = .ok stripped ∧ List.Forall₂ Strips plain stripped := by
  cases hlexemes : Lexeme.ofText sql with
  | error error => exact .inl ⟨error, by simp [statementsOfText, hlexemes, bind, Except.bind]⟩
  | ok lexemes =>
    cases hnodes : groupParentheses sql (lexemes.map Lexeme.toNode) with
    | error error =>
      exact .inl ⟨error, by simp [statementsOfText, hlexemes, hnodes, bind, Except.bind]⟩
    | ok nodes =>
      have hkinds := (Lexeme.ofText_eq_ok_iff.1 hlexemes).isGroup
      have hbracketed : ∀ node ∈ nodes, Bracketed node :=
        fun node hnode => (bracketed_groupParentheses hkinds hnodes node hnode).1
      have hstripped : ∀ node ∈ withoutCommentsAll nodes, Bracketed node :=
        (bracketed_stripped hbracketed true).1
      refine .inr ⟨(splitStatements nodes).map statement,
        (splitStatements (withoutCommentsAll nodes)).map statement,
        statementsOfText_eq_ok_iff.2 ⟨lexemes, nodes, hlexemes, hnodes, rfl⟩,
        statementsOfText_eq_ok_iff.2 ⟨lexemes, nodes, hlexemes, hnodes, rfl⟩, ?_⟩
      refine forall₂_strips ?_ fun piece => shaped_statement hstripped
      rw [map_fringe_statement hstripped, map_fringe_statement hbracketed,
        map_splitStatements_withoutComments hbracketed]

end Node

end QueryLineage
