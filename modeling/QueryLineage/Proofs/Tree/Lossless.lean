import QueryLineage.Proofs.Lexeme.Reads
import QueryLineage.Proofs.Outcome
import QueryLineage.Proofs.Tree.Brackets
import QueryLineage.Tree.Query

/-!
# Nothing is lost in reading

The fringes of the trees of a text are the lexemes of its statements, each statement having those
between its own semicolon and the one before. Where comments are taken out, a blank stands in the
place of each. Inside the trees, every group shows the texts of its children.
-/

namespace QueryLineage

/-- The lexeme that stands in a tree without comments: a comment is shown by its filler. -/
def Lexeme.withoutComment (lexeme : Lexeme) : Lexeme :=
  if lexeme.kind = .comment then
    ⟨.whitespace, if lexeme.text.toList.contains '\n' then "\n" else " "⟩
  else lexeme

theorem Lexeme.isMark_withoutComment (lexeme : Lexeme) (mark : String) :
    lexeme.withoutComment.isMark mark = lexeme.isMark mark := by
  unfold withoutComment
  split
  · next h => rw [isMark_of_kind_ne (by simp), isMark_of_kind_ne (by simp [h])]
  · rfl

theorem Lexeme.isGroup_withoutComment {lexeme : Lexeme} (h : lexeme.kind.isGroup = false) :
    lexeme.withoutComment.kind.isGroup = false := by
  unfold withoutComment
  split
  · rfl
  · exact h

theorem Lexeme.isSubstantial_withoutComment (lexeme : Lexeme) :
    lexeme.withoutComment.isSubstantial = lexeme.isSubstantial := by
  unfold withoutComment
  split
  · next h => simp [isSubstantial, h]
  · rfl

namespace Node

theorem withoutComments_parentheses (siblings : List Node) :
    (group .parenthesis (openingMark :: (siblings ++ [closingMark]))).withoutComments =
      group .parenthesis (openingMark :: (withoutCommentsAll siblings ++ [closingMark])) := by
  simp [Node.withoutComments, withoutCommentsAll_eq_map, openingMark, closingMark]

theorem withoutComments_toNode {lexeme : Lexeme} (h : lexeme.kind.isGroup = false) :
    lexeme.toNode.withoutComments = lexeme.withoutComment.toNode := by
  obtain ⟨kind, text⟩ := lexeme
  cases kind <;>
    simp_all [Lexeme.toNode, withoutComments, Lexeme.withoutComment, commentFiller, Kind.isGroup]

/-- Without its comments a node has the same shape, and its fringe shows the fillers. -/
theorem Bracketed.withoutComments {node : Node} (h : Bracketed node) :
    Bracketed node.withoutComments ∧
      node.withoutComments.fringe = node.fringe.map Lexeme.withoutComment ∧
      ∀ mark, node.withoutComments.isMark mark = node.isMark mark := by
  induction h with
  | @lexeme lexeme h =>
    rw [withoutComments_toNode h]
    exact ⟨.lexeme (Lexeme.isGroup_withoutComment h), by simp,
      fun mark => Lexeme.isMark_withoutComment lexeme mark⟩
  | @parentheses inner _ hopening hclosing ih =>
    have hfringe : fringeAll (inner.map Node.withoutComments) =
        (fringeAll inner).map Lexeme.withoutComment :=
      fringeAll_map fun node hnode => (ih node hnode).2.1
    rw [withoutComments_parentheses, withoutCommentsAll_eq_map]
    refine ⟨.parentheses ?_ ?_ ?_, ?_, fun mark => ?_⟩
    · intro node hnode
      obtain ⟨other, hother, rfl⟩ := List.mem_map.1 hnode
      exact (ih other hother).1
    · intro node hnode
      obtain ⟨other, hother, rfl⟩ := List.mem_map.1 hnode
      rw [(ih other hother).2.2, hopening other hother]
    · intro node hnode
      obtain ⟨other, hother, rfl⟩ := List.mem_map.1 hnode
      rw [(ih other hother).2.2, hclosing other hother]
    · simp [hfringe, openingMark, closingMark, Lexeme.withoutComment]
    · rw [isMark_of_kind_ne (by simp), isMark_of_kind_ne (by simp)]

theorem mem_of_mem_cutAtSemicolons {nodes piece : List Node} {node : Node}
    (hpiece : piece ∈ cutAtSemicolons nodes) (hnode : node ∈ piece) : node ∈ nodes := by
  rw [← flatten_cutAtSemicolons nodes]
  exact List.mem_flatten.2 ⟨piece, hpiece, hnode⟩

theorem cutAtSemicolons_map {f : Node → Node} {nodes : List Node}
    (hf : ∀ node ∈ nodes, (f node).isMark ";" = node.isMark ";") :
    cutAtSemicolons (nodes.map f) = (cutAtSemicolons nodes).map (·.map f) := by
  induction nodes with
  | nil => rfl
  | cons node nodes ih =>
    rw [List.map_cons, cutAtSemicolons_cons, hf node List.mem_cons_self,
      ih fun n hn => hf n (List.mem_cons_of_mem _ hn), cutAtSemicolons_cons,
      map_glue fun xs ys => List.map_append]
    congr 1
    split <;> simp

/-- The lexemes of the pieces between semicolons, in a row of nodes that parentheses have left. -/
theorem map_splitStatements {nodes : List Node} (h : ∀ node ∈ nodes, Bracketed node) :
    (splitStatements nodes).map fringeAll =
      ((cutAtSemicolons nodes).map fringeAll).filter (·.any Lexeme.isSubstantial) := by
  rw [splitStatements, List.filter_map]
  congr 1
  apply List.filter_congr
  intro piece hpiece
  have hmem : ∀ node ∈ piece, Bracketed node :=
    fun node hnode => h node (mem_of_mem_cutAtSemicolons hpiece hnode)
  clear hpiece
  induction piece with
  | nil => rfl
  | cons node piece ih =>
    simp only [List.any_cons, Function.comp_apply, fringeAll_cons, List.any_append,
      (hmem node List.mem_cons_self).isSubstantial] at ih ⊢
    rw [ih fun n hn => hmem n (List.mem_cons_of_mem _ hn)]

theorem map_fringe_statement {nodes : List Node} (h : ∀ node ∈ nodes, Bracketed node) :
    ((splitStatements nodes).map statement).map fringe = (splitStatements nodes).map fringeAll := by
  rw [List.map_map]
  apply List.map_congr_left
  intro piece hpiece
  have hbuilt : ∀ node ∈ piece, Built node :=
    fun node hnode => (h node (mem_of_mem_cutAtSemicolons (List.mem_filter.1 hpiece).1 hnode)).built
  have hkept := fringeAll_groupAll hbuilt
  have hne : groupAll piece ≠ [] := by
    intro hnil
    obtain ⟨node, hnode, hsubstantial⟩ := List.any_eq_true.1 (List.mem_filter.1 hpiece).2
    rw [← (h node (mem_of_mem_cutAtSemicolons (List.mem_filter.1 hpiece).1 hnode)).isSubstantial] at hsubstantial
    obtain ⟨lexeme, hlexeme, -⟩ := List.any_eq_true.1 hsubstantial
    have hmem : lexeme ∈ fringeAll piece := mem_fringeAll_of_mem hnode hlexeme
    rw [← hkept, hnil] at hmem
    simp at hmem
  rw [Function.comp_apply, statement, fringe_group _ hne, hkept]

/-- A group shows the texts of its children, one after the other. -/
theorem text_eq_join_children {node : Node} (h : node.children ≠ []) :
    node.text = String.join (node.children.map text) := by
  cases node with
  | leaf kind text => exact absurd rfl h
  | group kind children =>
    clear h
    rw [text_group, children_group]
    induction children with
    | nil => rfl
    | cons child children ih => rw [textAll_cons, ih, List.map_cons, String.join_cons]

theorem statementsOfText_eq_ok_iff {sql : String} {stripComments : Bool} {trees : List Node} :
    statementsOfText sql stripComments = .ok trees ↔
      ∃ lexemes nodes, Lexeme.ofText sql = .ok lexemes ∧
        groupParentheses sql (lexemes.map Lexeme.toNode) = .ok nodes ∧
        trees = (splitStatements
          (if stripComments then withoutCommentsAll nodes else nodes)).map statement := by
  cases hlexemes : Lexeme.ofText sql with
  | error error => simp [statementsOfText, hlexemes, bind, Except.bind]
  | ok lexemes =>
    cases hnodes : groupParentheses sql (lexemes.map Lexeme.toNode) with
    | error error => simp [statementsOfText, hlexemes, hnodes, bind, Except.bind]
    | ok nodes =>
      simp [statementsOfText, hlexemes, hnodes, bind, Except.bind, pure, Except.pure, eq_comm]

/-- The pieces of the nodes that statements are made of are those of the lexemes. -/
theorem map_splitStatements_groupParentheses {sql : String} {lexemes : List Lexeme}
    {nodes : List Node} (hkinds : ∀ lexeme ∈ lexemes, lexeme.kind.isGroup = false)
    (h : groupParentheses sql (lexemes.map Lexeme.toNode) = .ok nodes) :
    (splitStatements nodes).map fringeAll = Lexeme.statements lexemes := by
  have hbracketed := fun node hnode => (bracketed_groupParentheses hkinds h node hnode).1
  have hcut := map_cutAtSemicolons_closeParentheses h
  obtain ⟨piece, pieces, hchunks⟩ := List.exists_cons_of_ne_nil (Lexeme.chunks_ne_nil 0 lexemes)
  rw [map_splitStatements hbracketed, hcut, Lexeme.statements]
  simp [shown, cutAtSemicolons, hchunks]

/-- Taking out comments does not move a node to another statement. -/
theorem map_splitStatements_withoutComments {nodes : List Node}
    (h : ∀ node ∈ nodes, Bracketed node) :
    (splitStatements (withoutCommentsAll nodes)).map fringeAll =
      ((splitStatements nodes).map fringeAll).map (·.map Lexeme.withoutComment) := by
  have hstripped : ∀ node ∈ nodes.map Node.withoutComments, Bracketed node := by
    intro node hnode
    obtain ⟨other, hother, rfl⟩ := List.mem_map.1 hnode
    exact (h other hother).withoutComments.1
  have hpieces : ∀ piece ∈ cutAtSemicolons nodes,
      fringeAll (piece.map Node.withoutComments) =
        (fringeAll piece).map Lexeme.withoutComment := by
    intro piece hpiece
    apply fringeAll_map
    intro node hnode
    exact (h node (mem_of_mem_cutAtSemicolons hpiece hnode)).withoutComments.2.1
  have hany : ∀ piece : List Lexeme, (piece.map Lexeme.withoutComment).any Lexeme.isSubstantial =
      piece.any Lexeme.isSubstantial := by
    intro piece
    simp [List.any_map, Function.comp_def, Lexeme.isSubstantial_withoutComment]
  rw [withoutCommentsAll_eq_map, map_splitStatements hstripped, map_splitStatements h,
    cutAtSemicolons_map fun node hnode => (h node hnode).withoutComments.2.2 ";"]
  have hmap : ((cutAtSemicolons nodes).map (·.map Node.withoutComments)).map fringeAll =
      ((cutAtSemicolons nodes).map fringeAll).map (·.map Lexeme.withoutComment) := by
    rw [List.map_map, List.map_map]
    exact List.map_congr_left hpieces
  rw [hmap, List.filter_map]
  simp only [Function.comp_def, hany]

/-- Reading is lossless: the fringes of the trees of a text are the lexemes of its statements, and
every group shows the texts of its children. What makes it so is that grouping keeps the fringe of
any row of nodes that have been built from parts. -/
theorem statementsOfText_fringe {sql : String} {stripComments : Bool} {trees : List Node}
    (h : statementsOfText sql stripComments = .ok trees) :
    (∃ lexemes, Lexeme.ofText sql = .ok lexemes ∧
      trees.map fringe = (Lexeme.statements lexemes).map fun piece =>
        if stripComments then piece.map Lexeme.withoutComment else piece) ∧
    (∀ tree ∈ trees, ∀ path node, tree.descendant? path = some node → node.children ≠ [] →
      node.text = String.join (node.children.map text)) ∧
    ∀ nodes : List Node, (∀ node ∈ nodes, Built node) →
      fringeAll (groupAll nodes) = fringeAll nodes := by
  refine ⟨?_, fun _ _ _ _ _ hne => text_eq_join_children hne, fun nodes => fringeAll_groupAll⟩
  obtain ⟨lexemes, nodes, hlexemes, hnodes, rfl⟩ := statementsOfText_eq_ok_iff.1 h
  have hkinds := (Lexeme.ofText_eq_ok_iff.1 hlexemes).isGroup
  have hbracketed := fun node hnode => (bracketed_groupParentheses hkinds hnodes node hnode).1
  have hpieces := map_splitStatements_groupParentheses hkinds hnodes
  have hstripped : ∀ node ∈ withoutCommentsAll nodes, Bracketed node := by
    intro node hnode
    rw [withoutCommentsAll_eq_map] at hnode
    obtain ⟨other, hother, rfl⟩ := List.mem_map.1 hnode
    exact (hbracketed other hother).withoutComments.1
  refine ⟨lexemes, hlexemes, ?_⟩
  cases stripComments with
  | false =>
    simp only [Bool.false_eq_true, if_false, List.map_id']
    rw [map_fringe_statement hbracketed, hpieces]
  | true =>
    simp only [if_true]
    rw [map_fringe_statement hstripped, map_splitStatements_withoutComments hbracketed, hpieces]

/-- A semicolon in a string and one in parentheses stay where they are, comments leave fillers, and
a piece with nothing but comments and blanks has no tree. -/
theorem statementsOfText_fringe_semicolons :
    ∃ trees, statementsOfText "SELECT ';' -- x\n; /* y */ ;SELECT (a;b)" true = .ok trees ∧
      (trees.map fringe).map (·.map Lexeme.text) =
        [["SELECT", " ", "';'", " ", "\n", ";"], ["SELECT", " ", "(", "a", ";", "b", ")"]] := by
  obtain ⟨trees, htrees⟩ : ∃ trees,
      statementsOfText "SELECT ';' -- x\n; /* y */ ;SELECT (a;b)" true = .ok trees :=
    exists_of_isOk (by decide +kernel)
  have hread : ((Lexeme.ofText "SELECT ';' -- x\n; /* y */ ;SELECT (a;b)").toOption.map fun lexemes =>
      (Lexeme.statements lexemes).map fun piece => (piece.map Lexeme.withoutComment).map Lexeme.text) =
      some [["SELECT", " ", "';'", " ", "\n", ";"], ["SELECT", " ", "(", "a", ";", "b", ")"]] := by
    decide +kernel
  obtain ⟨⟨lexemes, hlexemes, hfringe⟩, -⟩ := statementsOfText_fringe htrees
  refine ⟨trees, htrees, ?_⟩
  rw [hlexemes] at hread
  rw [hfringe, List.map_map]
  exact Option.some.inj hread

end Node

end QueryLineage
