import Mathlib.Data.List.TakeWhile
import QueryLineage.Proofs.Lexeme.Conditions
import QueryLineage.Proofs.Tree.Single

/-!
# The trees of conditions

Conditions that stand behind an `ON` are children of the statement, those that stand in a `WHERE`
are children of the clause. They are the same nodes in both places.
-/

namespace QueryLineage

/-- Conditions that may be written behind an `ON` and in a `WHERE`: every parenthesis has a partner,
and outside of the parentheses nothing ends a clause or begins one. -/
structure Lexeme.Conditional (conditions : String) (lexemes : List Lexeme) : Prop where
  read : ofText (" " ++ conditions) = .ok lexemes
  closed : ∀ lexeme ∈ outermost 0 lexemes, lexeme.isMark ")" = false
  goesOn : ∀ lexeme ∈ outermost 0 lexemes, lexeme.toNode.endsWhere = false
  noWhere : ∀ lexeme ∈ outermost 0 lexemes, lexeme.toNode.isWord "WHERE" = false

namespace Node

def joinNode : Node := leaf (.keyword .generic) "JOIN"

def onNode : Node := leaf (.keyword .generic) "ON"

def whereNode : Node := leaf (.keyword .generic) "WHERE"

/-- A node that no name before it takes up. -/
structure EndsName (node : Node) : Prop extends node.Inert where
  kind : node.isKeyword = true ∨ node.kind = .whereClause
  word : node.isWordIn ["AS", "ASC", "DESC"] = false

theorem endsName_joinNode : joinNode.EndsName where
  item := rfl
  sign := rfl
  noWhere := by decide +kernel
  noCase := by decide +kernel
  kind := Or.inl rfl
  word := by decide +kernel

theorem endsName_onNode : onNode.EndsName where
  item := rfl
  sign := rfl
  noWhere := by decide +kernel
  noCase := by decide +kernel
  kind := Or.inl rfl
  word := by decide +kernel

theorem endsName_whereClause (children : List Node) :
    (group .whereClause children).EndsName :=
  ⟨⟨rfl, rfl, rfl, rfl⟩, Or.inr rfl, rfl⟩

namespace EndsName

variable {node : Node} (h : node.EndsName)
include h

theorem isKind {kind : Kind} (hkeyword : kind.isKeyword = false) (hclause : kind ≠ .whereClause) :
    node.isKind kind = false := by
  rw [Node.isKind, beq_eq_false_iff_ne]
  rintro rfl
  rcases h.kind with hkind | hkind
  · rw [isKeyword, hkeyword] at hkind
    cases hkind
  · exact hclause hkind

theorem isWord {word : String} (hword : word ∈ ["AS", "ASC", "DESC"]) :
    node.isWord word = false := by
  have hnone := h.word
  rw [isWordIn, Bool.and_eq_false_iff] at hnone
  rw [Node.isWord, Bool.and_eq_false_iff, beq_eq_false_iff_ne]
  refine hnone.imp_right fun hnot => ?_
  rintro rfl
  simp_all

theorem reach_eq_none {p : Node → Bool} (hp : p node = false) (siblings : List Node) :
    reach .blanks p (spaceNode :: node :: siblings) = none := by
  have hspace : spaceNode.isFiller .blanks = true := rfl
  have hnode : node.isFiller .blanks = false := by
    rw [isFiller_blanks]
    exact h.isKind rfl (by decide)
  rw [reach, if_pos hspace, reach, if_neg (by simp [hnode]), if_neg (by simp [hp])]
  rfl

theorem reaches_eq_none {p : Node → Bool} (hp : p node = false) (ps : List (Node → Bool))
    (siblings : List Node) :
    reaches .blanks (p :: ps) (spaceNode :: node :: siblings) = none := by
  rw [reaches, h.reach_eq_none hp]
  rfl

section

variable (name : Node) (siblings : List Node)

theorem callExtent_eq_none : callExtent name (spaceNode :: node :: siblings) = none := by
  rw [callExtent, h.reach_eq_none (h.isKind rfl (by decide)), Option.map_none, ite_self]

theorem operationExtent_eq_none : operationExtent name (spaceNode :: node :: siblings) = none := by
  rw [operationExtent, h.reaches_eq_none, ite_self]
  rw [h.isKind rfl (by decide), h.isKind rfl (by decide), Bool.or_false]

theorem comparisonExtent_eq_none : comparisonExtent name (spaceNode :: node :: siblings) = none := by
  rw [comparisonExtent, h.reaches_eq_none (h.isKind rfl (by decide)), ite_self]

theorem asExtent_eq_none : asExtent name (spaceNode :: node :: siblings) = none := by
  rw [asExtent, h.reaches_eq_none (h.isWord (by simp)), ite_self]

theorem aliasExtent_eq_none : aliasExtent name (spaceNode :: node :: siblings) = none := by
  have hsingle : node.isSingleName = false := by
    rw [isSingleName, h.isKind rfl (by decide), Bool.false_and]
  rw [aliasExtent, h.reach_eq_none hsingle, Option.filter_none, ite_self]

theorem directionExtent_eq_none : directionExtent name (spaceNode :: node :: siblings) = none := by
  have hword : node.isWordIn ["ASC", "DESC"] = false := by
    have hnone := h.word
    simp only [isWordIn, Bool.and_eq_false_iff] at hnone ⊢
    exact hnone.imp_right fun hnot => by simp_all
  rw [directionExtent, h.reach_eq_none hword, ite_self]

theorem commentExtent_eq_none : commentExtent name (spaceNode :: node :: siblings) = none := by
  have hcomment : node.isComment = false := h.isKind rfl (by decide)
  rw [commentExtent, h.reach_eq_none hcomment, ite_self]

theorem listExtent_eq_none : listExtent name (spaceNode :: node :: siblings) = none := by
  have hpunctuation : node.isPunctuation = false := h.isKind rfl (by decide)
  have hwhitespace : node.isWhitespace = false := h.isKind rfl (by decide)
  have hcomment : node.isComment = false := h.isKind rfl (by decide)
  apply listExtent_of_not_comma
  · rw [isMark, hpunctuation, Bool.false_and]
  · rw [isFiller_all, hwhitespace, hcomment, Bool.or_false]

end

theorem groupLevel_name (name : String) (siblings : List Node) :
    groupLevel (nameNode name :: spaceNode :: node :: siblings) =
      group .identifier [nameNode name] :: spaceNode :: node :: groupLevel siblings := by
  have hitem : node.isOperand = false ∧ node.isKind .comparison = false := by
    have hnot := h.item
    simp only [isItem, Bool.or_eq_false_iff] at hnot
    exact ⟨hnot.1.1, hnot.2⟩
  have hwhitespace : node.isWhitespace = false := h.isKind rfl (by decide)
  have hitems : ∀ rest, groupItems (nameNode name :: spaceNode :: node :: rest) =
      group .identifier [nameNode name] :: spaceNode :: node :: groupItems rest := fun rest => by
    unfold groupItems
    simp only
    -- only the pass for identifiers applies to the name
    rw [joinOnce_cons_of_none (h.callExtent_eq_none _ _),
      joinOnce_cons_of_none (callExtent_of_not_operand rfl _),
      joinOnce_cons_of_none (callExtent_of_not_operand hitem.1 _),
      joinOnce_cons_of_some (n := 0) rfl, List.drop_zero,
      joinOnce_cons_of_none (identifierExtent_of_not_operand rfl _),
      joinOnce_cons_of_none (identifierExtent_of_not_operand hitem.1 _),
      enclose, List.take_zero, groupSigns_cons rfl, groupSigns_cons rfl, groupSigns_cons h.sign,
      hwhitespace, if_neg Bool.false_ne_true, hitem.1,
      joinRepeatedly_cons_of_none (h.operationExtent_eq_none _ _),
      joinRepeatedly_cons_of_none (operationExtent_of_not_operand rfl _),
      joinRepeatedly_cons_of_none (operationExtent_of_not_operand hitem.1 _),
      joinOnce_cons_of_none (h.comparisonExtent_eq_none _ _),
      joinOnce_cons_of_none (comparisonExtent_of_not_operand rfl _),
      joinOnce_cons_of_none (comparisonExtent_of_not_operand hitem.1 _),
      joinRepeatedly_cons_of_none (h.asExtent_eq_none _ _),
      joinRepeatedly_cons_of_none (asExtent_of_not_operand rfl rfl _),
      joinRepeatedly_cons_of_none (asExtent_of_not_operand hitem.1 hitem.2 _),
      joinOnce_cons_of_none (h.aliasExtent_eq_none _ _),
      joinOnce_cons_of_none (aliasExtent_of_not_operand rfl _),
      joinOnce_cons_of_none (aliasExtent_of_not_operand hitem.1 _),
      joinOnce_cons_of_none (h.directionExtent_eq_none _ _),
      joinOnce_cons_of_none (directionExtent_of_not_operand rfl _),
      joinOnce_cons_of_none (directionExtent_of_not_operand hitem.1 _),
      joinRepeatedly_cons_of_none (h.commentExtent_eq_none _ _),
      joinRepeatedly_cons_of_none (commentExtent_of_not_operand rfl _),
      joinRepeatedly_cons_of_none (commentExtent_of_not_operand hitem.1 _)]
  rw [groupLevel, groupCases_cons rfl, groupCases_cons rfl, groupCases_cons h.noCase,
    groupExpressions_eq, hitems, joinOnce_cons_of_none (h.listExtent_eq_none _ _),
    joinOnce_cons_of_none (listExtent_of_not_item inert_spaceNode.item _),
    joinOnce_cons_of_none (listExtent_of_not_item h.item _)]
  rfl

end EndsName

def sourcesOn : List Node :=
  [selectNode, spaceNode, starNode, spaceNode, fromNode, spaceNode,
    group .identifier [nameNode "a"], spaceNode, joinNode, spaceNode,
    group .identifier [nameNode "b"], spaceNode, onNode]

def sourceWhere : List Node :=
  [selectNode, spaceNode, starNode, spaceNode, fromNode, spaceNode,
    group .identifier [nameNode "a"], spaceNode]

/-- A clause ends before the first node that ends it. -/
theorem groupWheres_whereNode_append {before others : List Node}
    (hbefore : ∀ node ∈ before, node.endsWhere = false)
    (hothers : ∀ node ∈ others.head?, node.endsWhere = true) :
    groupWheres (whereNode :: (before ++ others)) =
      group .whereClause (whereNode :: groupLevel before) :: groupWheres others := by
  have hword : whereNode.isWord "WHERE" = true := by decide +kernel
  have hstop : others.takeWhile (fun node => !node.endsWhere) = [] := by
    cases others with
    | nil => rfl
    | cons node others => exact List.takeWhile_cons_of_neg (by simp [hothers node rfl])
  have hclause : (before ++ others).takeWhile (fun node => !node.endsWhere) = before := by
    rw [List.takeWhile_append_of_pos fun node hnode => by simp [hbefore node hnode], hstop,
      List.append_nil]
  rw [groupWheres, if_pos hword]
  simp only [hclause, List.drop_left]

theorem groupWheres_whereNode {siblings : List Node}
    (h : ∀ node ∈ siblings, node.endsWhere = false) :
    groupWheres (whereNode :: siblings) = [group .whereClause (whereNode :: groupLevel siblings)] := by
  have hclause := @groupWheres_whereNode_append siblings [] h (by simp)
  rwa [List.append_nil, groupWheres] at hclause

theorem groupWheres_of_forall {siblings : List Node}
    (h : ∀ node ∈ siblings, node.isWord "WHERE" = false) : groupWheres siblings = siblings := by
  induction siblings with
  | nil => rw [groupWheres]
  | cons node siblings ih =>
    rw [groupWheres_cons (h node List.mem_cons_self),
      ih fun other hother => h other (List.mem_cons_of_mem _ hother)]

/-- The conditions behind the `ON` are grouped as they are alone. -/
theorem groupAll_joinedOn (nodes : List Node) :
    groupAll (Lexeme.selectStarOn.map Lexeme.toNode ++ nodes) = sourcesOn ++ groupAll nodes := by
  have hinside : groupInsideAll (Lexeme.selectStarOn.map Lexeme.toNode ++ nodes) =
      selectNode :: spaceNode :: starNode :: spaceNode :: fromNode :: spaceNode ::
        nameNode "a" :: spaceNode :: joinNode :: spaceNode :: nameNode "b" :: spaceNode ::
          onNode :: groupInsideAll nodes := by
    rw [groupInsideAll_append]
    rfl
  rw [groupAll, hinside, groupRun_selectStarFrom, groupRun, groupWheres_cons rfl,
    groupWheres_cons rfl, groupWheres_cons endsName_joinNode.noWhere, groupWheres_cons rfl,
    groupWheres_cons rfl, groupWheres_cons rfl, groupWheres_cons endsName_onNode.noWhere,
    endsName_joinNode.groupLevel_name, inert_spaceNode.groupLevel_cons,
    endsName_onNode.groupLevel_name]
  rfl

/-- The conditions in the `WHERE` are grouped as they are alone, if nothing ends the clause. -/
theorem groupAll_restrictedBy {nodes : List Node}
    (hgoesOn : ∀ node ∈ groupInsideAll nodes, node.endsWhere = false)
    (hnoWhere : ∀ node ∈ groupInsideAll nodes, node.isWord "WHERE" = false) :
    groupAll (Lexeme.selectStarWhere.map Lexeme.toNode ++ nodes) =
      sourceWhere ++ [group .whereClause (whereNode :: groupAll nodes)] := by
  have hinside : groupInsideAll (Lexeme.selectStarWhere.map Lexeme.toNode ++ nodes) =
      selectNode :: spaceNode :: starNode :: spaceNode :: fromNode :: spaceNode ::
        nameNode "a" :: spaceNode :: whereNode :: groupInsideAll nodes := by
    rw [groupInsideAll_append]
    rfl
  have hlevel : groupAll nodes = groupLevel (groupInsideAll nodes) := by
    rw [groupAll, groupRun, groupWheres_of_forall hnoWhere]
  have hnil : groupLevel [] = [] := by
    have hrun := groupRun_nil
    rwa [groupRun, groupWheres] at hrun
  rw [groupAll, hinside, groupRun_selectStarFrom, groupRun, groupWheres_cons rfl,
    groupWheres_cons rfl, groupWheres_whereNode hgoesOn,
    (endsName_whereClause _).groupLevel_name, hnil, hlevel]
  rfl

end Node

namespace Lexeme

theorem fixed_of_forall {lexemes : List Lexeme}
    (h : ∀ lexeme ∈ lexemes, lexeme.isMark "(" = false ∧ lexeme.isMark ")" = false ∧
      lexeme.isMark ";" = false ∧ lexeme.kind ≠ .comment ∧ lexeme.kind.isGroup = false) :
    ∀ lexeme ∈ lexemes, lexeme.Fixed := by
  intro lexeme hlexeme
  obtain ⟨hopening, hclosing, hsemicolon, hcomment, hgroup⟩ := h lexeme hlexeme
  exact ⟨hopening, hclosing, hsemicolon, hcomment, hgroup⟩

theorem fixed_of_mem_selectStarOn : ∀ lexeme ∈ selectStarOn, lexeme.Fixed :=
  fixed_of_forall (by decide +kernel)

theorem fixed_of_mem_selectStarWhere : ∀ lexeme ∈ selectStarWhere, lexeme.Fixed :=
  fixed_of_forall (by decide +kernel)

end Lexeme

namespace Lexeme.Conditional

variable {conditions sql : String} {lexemes first : List Lexeme} {nodes : List Node}
  (h : Conditional conditions lexemes)
include h

theorem statementsOfText_append (hread : ofText sql = .ok (first ++ lexemes))
    (hfixed : ∀ lexeme ∈ first, lexeme.Fixed) (hsubstantial : first.any isSubstantial = true)
    (hnodes : Node.Nests lexemes nodes) (stripComments : Bool) :
    Node.statementsOfText sql stripComments =
      .ok [Node.statement (first.map toNode ++ Node.stripped stripComments nodes)] := by
  have houtermost := outermost_append (fun lexeme hlexeme => (hfixed lexeme hlexeme).opening) lexemes
  have hfirst : Node.stripped stripComments (first.map toNode) = first.map toNode := by
    cases stripComments with
    | false => rfl
    | true =>
      rw [Node.stripped, if_pos rfl, Node.withoutCommentsAll_eq_map, List.map_map]
      apply List.map_congr_left
      exact fun lexeme hlexeme => (hfixed lexeme hlexeme).withoutComments_toNode
  have hnests := (Node.Nests.of_forall fun lexeme hlexeme =>
    ⟨(hfixed lexeme hlexeme).opening, (hfixed lexeme hlexeme).closing⟩).append hnodes
  have htree := Node.statementsOfText_of_nests hread hnests ?_ ?_ stripComments
  · rwa [Node.stripped_append, hfirst] at htree
  · intro lexeme hlexeme
    rw [houtermost] at hlexeme
    rcases List.mem_append.1 hlexeme with hlexeme | hlexeme
    · exact (hfixed lexeme hlexeme).semicolon
    · exact (Bool.or_eq_false_iff.1 (h.goesOn lexeme hlexeme)).1
  · obtain ⟨lexeme, hlexeme, hany⟩ := List.any_eq_true.1 hsubstantial
    exact ⟨lexeme, houtermost ▸ List.mem_append_left _ hlexeme, hany⟩

omit h in
theorem endsWhere_withoutComment {lexeme : Lexeme} (hlexeme : lexeme.toNode.endsWhere = false) :
    lexeme.withoutComment.toNode.endsWhere = false := by
  unfold withoutComment
  split
  · rfl
  · exact hlexeme

theorem kinds : ∀ lexeme ∈ lexemes, lexeme.kind.isGroup = false :=
  (ofText_eq_ok_iff.1 h.read).isGroup

/-- The nodes of the conditions end no clause and begin none. -/
theorem goesOn_groupInsideAll (hnodes : Node.Nests lexemes nodes) (stripComments : Bool) :
    ∀ node ∈ Node.groupInsideAll (Node.stripped stripComments nodes),
      node.endsWhere = false ∧ node.isWord "WHERE" = false := by
  have houtermost : ∀ lexeme ∈ outermost 0 (stripped stripComments lexemes),
      lexeme.toNode.endsWhere = false ∧ lexeme.toNode.isWord "WHERE" = false := by
    intro lexeme hlexeme
    cases stripComments with
    | false => exact ⟨h.goesOn lexeme hlexeme, h.noWhere lexeme hlexeme⟩
    | true =>
      rw [stripped, if_pos rfl, outermost_map_withoutComment] at hlexeme
      obtain ⟨other, hother, rfl⟩ := List.mem_map.1 hlexeme
      refine ⟨endsWhere_withoutComment (h.goesOn other hother), ?_⟩
      rw [isWord_withoutComment, h.noWhere other hother]
  intro node hnode
  rw [Node.groupInsideAll_eq_map] at hnode
  obtain ⟨other, hother, rfl⟩ := List.mem_map.1 hnode
  rcases (hnodes.stripped h.kinds stripComments).exists_of_mem hother with
    ⟨lexeme, hlexeme, rfl, -⟩ | ⟨_, inner, -, -, rfl⟩
  · exact houtermost lexeme hlexeme
  · rw [Node.groupInside_parentheses]
    exact ⟨rfl, rfl⟩

theorem statementsOfText_restrictedBy (hnodes : Node.Nests lexemes nodes) (stripComments : Bool) :
    Node.statementsOfText (restrictedBy conditions) stripComments =
      .ok [.group .statement (Node.sourceWhere ++ [.group .whereClause
        (Node.whereNode :: Node.groupAll (Node.stripped stripComments nodes))])] := by
  have hgoesOn := h.goesOn_groupInsideAll hnodes stripComments
  rw [h.statementsOfText_append (ofText_restrictedBy h.read) fixed_of_mem_selectStarWhere rfl hnodes
    stripComments, Node.statement, Node.groupAll_restrictedBy
      (fun node hnode => (hgoesOn node hnode).1) fun node hnode => (hgoesOn node hnode).2]

theorem statementsOfText_joinedOn (hnodes : Node.Nests lexemes nodes) (stripComments : Bool) :
    Node.statementsOfText (joinedOn conditions) stripComments =
      .ok [.group .statement
        (Node.sourcesOn ++ Node.groupAll (Node.stripped stripComments nodes))] := by
  rw [h.statementsOfText_append (ofText_joinedOn h.read) fixed_of_mem_selectStarOn rfl hnodes
    stripComments, Node.statement, Node.groupAll_joinedOn]

theorem exists_nests {trees : List Node} {stripComments : Bool}
    (htrees : Node.statementsOfText (restrictedBy conditions) stripComments = .ok trees) :
    ∃ nodes, Node.Nests lexemes nodes := by
  obtain ⟨others, nodes, hread, hgroup, -⟩ := Node.statementsOfText_eq_ok_iff.1 htrees
  obtain rfl := Except.ok.inj ((ofText_restrictedBy h.read).symm.trans hread)
  have hclosed : ∀ lexeme ∈ outermost 0 (selectStarWhere ++ lexemes), lexeme.isMark ")" = false := by
    rw [outermost_append fun lexeme hlexeme => (fixed_of_mem_selectStarWhere lexeme hlexeme).opening]
    intro lexeme hlexeme
    rcases List.mem_append.1 hlexeme with hlexeme | hlexeme
    · exact (fixed_of_mem_selectStarWhere lexeme hlexeme).closing
    · exact h.closed lexeme hlexeme
  obtain ⟨rest, -, hnests⟩ := (Node.Nests.of_groupParentheses hclosed hgroup).exists_of_append
    fun lexeme hlexeme => (fixed_of_mem_selectStarWhere lexeme hlexeme).opening
  exact ⟨rest, hnests⟩

/-- What stands in the `WHERE` of the restriction stands behind the `ON` of the join. -/
theorem exists_siblings {stripComments : Bool} {tree clause : Node}
    (htree : Node.statementsOfText (restrictedBy conditions) stripComments = .ok [tree])
    (hclause : clause ∈ tree.children) (hkind : clause.kind = .whereClause) :
    ∃ siblings, clause = .group .whereClause (Node.whereNode :: siblings) ∧
      Node.statementsOfText (joinedOn conditions) stripComments =
        .ok [.group .statement (Node.sourcesOn ++ siblings)] := by
  obtain ⟨nodes, hnodes⟩ := h.exists_nests htree
  have hwhere := h.statementsOfText_restrictedBy hnodes stripComments
  obtain rfl := (List.cons.inj (Except.ok.inj (hwhere.symm.trans htree))).1
  refine ⟨_, ?_, h.statementsOfText_joinedOn hnodes stripComments⟩
  rcases List.mem_append.1 hclause with hmem | hmem
  · have hkinds : ∀ node ∈ Node.sourceWhere, node.kind ≠ .whereClause := by decide
    exact absurd hkind (hkinds clause hmem)
  · exact List.mem_singleton.1 hmem

end Lexeme.Conditional

end QueryLineage
